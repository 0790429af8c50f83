import SecureFileSystem.Base
import SecureFileSystem.Assoc
import SecureFileSystem.Transition
import SecureFileSystem.TextCodec

/-!
`services/rate_limit.py`: one token bucket for each client. A window never lets
more calls through than the capacity and the refill of the window, as long as
no client who still owes tokens is forgotten.
-/

namespace SecureFileSystem.RateLimit

open Base Transition TextCodec Assoc

structure Bucket where
  tokens : ℚ
  updated : ℚ
  deriving DecidableEq

/-- `self._buckets`; keys are distinct. -/
abbrev Buckets := List (Text × Bucket)

def maxTrackedKeys : Nat := 10000

def Buckets.set (buckets : Buckets) (key : Text) (bucket : Bucket) : Buckets :=
  buckets.filter (·.1 ≠ key) ++ [(key, bucket)]

def capacity (perMinute : Nat) : ℚ := perMinute

def refillPerSecond (perMinute : Nat) : ℚ := perMinute / 60

def refilled (perMinute : Nat) (bucket : Bucket) (now : ℚ) : ℚ :=
  min (capacity perMinute)
    (bucket.tokens + (now - bucket.updated) * refillPerSecond perMinute)

/-- The first step of `_evict_full`: clients whose bucket has refilled go. -/
def dropFull (perMinute : Nat) (buckets : Buckets) (now : ℚ) : Buckets :=
  let refillTime := capacity perMinute / refillPerSecond perMinute
  buckets.filter fun entry => ¬ refillTime ≤ now - entry.2.updated

def evictFull (perMinute : Nat) (buckets : Buckets) (now : ℚ) : Buckets :=
  let kept := dropFull perMinute buckets now
  if maxTrackedKeys ≤ kept.length then [] else kept

def visit (perMinute : Nat) (buckets : Buckets) (key : Text) (now : ℚ) : Buckets × Bucket :=
  match buckets.lookup key with
  | none =>
      (if maxTrackedKeys ≤ buckets.length then evictFull perMinute buckets now else buckets,
        ⟨capacity perMinute, now⟩)
  | some bucket => (buckets, ⟨refilled perMinute bucket now, now⟩)

def allow (perMinute : Nat) (buckets : Buckets) (key : Text) (now : ℚ) : Bool × Buckets :=
  let (table, bucket) := visit perMinute buckets key now
  if bucket.tokens < 1 then (false, table.set key bucket)
  else (true, table.set key { bucket with tokens := bucket.tokens - 1 })

structure Call where
  key : Text
  time : ℚ
  allowed : Bool

structure State where
  buckets : Buckets
  clock : ℚ

/-- One call, at a time the clock has not passed yet. -/
def Step (perMinute : Nat) (before : State) (call : Call) (after : State) : Prop :=
  before.clock ≤ call.time ∧ after.clock = call.time ∧
    allow perMinute before.buckets call.key call.time = (call.allowed, after.buckets)

def granted (key : Text) (s t : ℚ) (calls : List Call) : Nat :=
  calls.countP fun call =>
    decide (call.key = key ∧ s ≤ call.time ∧ call.time ≤ t) && call.allowed

/-- The call empties the table. -/
def Clears (perMinute : Nat) (before : State) (call : Call) : Prop :=
  before.buckets.lookup call.key = none ∧ maxTrackedKeys ≤ before.buckets.length ∧
    maxTrackedKeys ≤ (dropFull perMinute before.buckets call.time).length

/-- Nobody who still owes tokens is forgotten with it. -/
def Forgiving (perMinute : Nat) (before : State) (call : Call) : Prop :=
  Clears perMinute before call → ∀ entry ∈ before.buckets,
    refilled perMinute entry.2 call.time = capacity perMinute

def level (perMinute : Nat) (buckets : Buckets) (key : Text) (time : ℚ) : ℚ :=
  match buckets.lookup key with
  | none => capacity perMinute
  | some bucket => refilled perMinute bucket time

structure Sound (buckets : Buckets) : Prop where
  distinct : (buckets.map Prod.fst).Nodup
  solvent : ∀ entry ∈ buckets, 0 ≤ entry.2.tokens

theorem refillPerSecond_nonneg (perMinute : Nat) : 0 ≤ refillPerSecond perMinute := by
  unfold refillPerSecond
  positivity

theorem capacity_refill (perMinute : Nat) (positive : 1 ≤ perMinute) :
    capacity perMinute / refillPerSecond perMinute * refillPerSecond perMinute =
      capacity perMinute := by
  have nonzero : (perMinute : ℚ) ≠ 0 := by
    have := Nat.one_le_iff_ne_zero.mp positive
    exact_mod_cast this
  unfold capacity refillPerSecond
  field_simp

theorem level_capacity (perMinute : Nat) (buckets : Buckets) (key : Text) (time : ℚ) :
    level perMinute buckets key time ≤ capacity perMinute := by
  unfold level
  split
  · exact le_refl _
  · exact min_le_left _ _

/-- Tokens come in no faster than the refill rate. -/
theorem level_refill (perMinute : Nat) (buckets : Buckets) (key : Text) (earlier later : ℚ)
    (order : earlier ≤ later) :
    level perMinute buckets key later ≤
      level perMinute buckets key earlier + refillPerSecond perMinute * (later - earlier) := by
  have rate := refillPerSecond_nonneg perMinute
  have gained : 0 ≤ refillPerSecond perMinute * (later - earlier) :=
    mul_nonneg rate (sub_nonneg.mpr order)
  unfold level
  cases buckets.lookup key with
  | none => exact le_add_of_nonneg_right gained
  | some bucket =>
      simp only [refilled]
      rcases min_choice (capacity perMinute)
        (bucket.tokens + (earlier - bucket.updated) * refillPerSecond perMinute) with full | low
      · rw [full]
        exact (min_le_left _ _).trans (le_add_of_nonneg_right gained)
      · rw [low]
        refine (min_le_right _ _).trans (le_of_eq ?_)
        ring

theorem refilled_old (perMinute : Nat) (positive : 1 ≤ perMinute) (bucket : Bucket) (now : ℚ)
    (solvent : 0 ≤ bucket.tokens)
    (old : capacity perMinute / refillPerSecond perMinute ≤ now - bucket.updated) :
    refilled perMinute bucket now = capacity perMinute := by
  apply min_eq_left
  have earned := mul_le_mul_of_nonneg_right old (refillPerSecond_nonneg perMinute)
  rw [capacity_refill perMinute positive] at earned
  linarith

theorem refilled_now (perMinute : Nat) (tokens now : ℚ) (few : tokens ≤ capacity perMinute) :
    refilled perMinute ⟨tokens, now⟩ now = tokens := by
  simp only [refilled, sub_self, zero_mul, add_zero]
  exact min_eq_right few

theorem visit_tokens (perMinute : Nat) (buckets : Buckets) (key : Text) (now : ℚ) :
    (visit perMinute buckets key now).2 = ⟨level perMinute buckets key now, now⟩ := by
  unfold visit level
  cases buckets.lookup key with
  | none => rfl
  | some bucket => rfl

/-- Looking a client up leaves every other client its tokens, unless the table
is emptied under one who owes some. -/
theorem visit_level (perMinute : Nat) (positive : 1 ≤ perMinute) (state : State) (call : Call)
    (sound : Sound state.buckets) (forgiving : Forgiving perMinute state call) (other : Text) :
    level perMinute (visit perMinute state.buckets call.key call.time).1 other call.time =
      level perMinute state.buckets other call.time := by
  unfold visit
  cases found : state.buckets.lookup call.key with
  | some bucket => rfl
  | none =>
      by_cases room : maxTrackedKeys ≤ state.buckets.length
      · rw [if_pos room]
        unfold evictFull
        by_cases crowded :
            maxTrackedKeys ≤ (dropFull perMinute state.buckets call.time).length
        · -- the table is emptied, so nobody in it owed anything
          have full := forgiving ⟨found, room, crowded⟩
          simp only [if_pos crowded, level, List.lookup_nil]
          cases held : state.buckets.lookup other with
          | none => rfl
          | some bucket => exact (full (other, bucket) (mem_of_lookup _ _ _ held)).symm
        · -- only refilled buckets go
          simp only [if_neg crowded, level]
          unfold dropFull
          rw [lookup_filter_distinct _ _ _ sound.distinct]
          cases held : state.buckets.lookup other with
          | none => rfl
          | some bucket =>
              have solvent := sound.solvent _ (mem_of_lookup _ _ _ held)
              by_cases old : capacity perMinute / refillPerSecond perMinute ≤
                  call.time - bucket.updated
              · have full := refilled_old perMinute positive bucket call.time solvent old
                simp [Option.filter_some, not_lt.mpr old, full]
              · simp [Option.filter_some, not_le.mp old]
      · rw [if_neg room]

theorem visit_sound (perMinute : Nat) (buckets : Buckets) (key : Text) (now : ℚ)
    (sound : Sound buckets) : Sound (visit perMinute buckets key now).1 := by
  have kept : Sound (dropFull perMinute buckets now) := by
    constructor
    · exact sound.distinct.sublist (List.filter_sublist.map Prod.fst)
    · intro entry member
      exact sound.solvent entry (List.mem_of_mem_filter member)
  have evicted : Sound (evictFull perMinute buckets now) := by
    unfold evictFull
    dsimp only
    split
    · constructor <;> simp
    · exact kept
  unfold visit
  split
  · split
    · exact evicted
    · exact sound
  · exact sound

def spent (call : Call) (key : Text) : ℚ :=
  if call.key = key ∧ call.allowed = true then 1 else 0

theorem set_level (perMinute : Nat) (table : Buckets) (key other : Text) (tokens now : ℚ)
    (few : tokens ≤ capacity perMinute) :
    level perMinute (table.set key ⟨tokens, now⟩) other now =
      if other = key then tokens else level perMinute table other now := by
  unfold level Buckets.set
  rw [lookup_replace]
  by_cases same : other = key
  · rw [if_pos same, if_pos same]
    exact refilled_now perMinute tokens now few
  · rw [if_neg same, if_neg same]

theorem set_sound (table : Buckets) (key : Text) (bucket : Bucket) (sound : Sound table)
    (solvent : 0 ≤ bucket.tokens) : Sound (table.set key bucket) := by
  constructor
  · exact distinct_replace _ _ _ sound.distinct
  · rintro entry member
    rcases List.mem_append.mp member with old | new
    · exact sound.solvent entry (List.mem_of_mem_filter old)
    · obtain rfl := List.mem_singleton.mp new
      exact solvent

theorem allow_level (perMinute : Nat) (buckets : Buckets) (key : Text) (now : ℚ) :
    allow perMinute buckets key now =
      if level perMinute buckets key now < 1 then
        (false, (visit perMinute buckets key now).1.set key
          ⟨level perMinute buckets key now, now⟩)
      else (true, (visit perMinute buckets key now).1.set key
        ⟨level perMinute buckets key now - 1, now⟩) := by
  have tokens := visit_tokens perMinute buckets key now
  unfold allow
  generalize visit perMinute buckets key now = found at tokens ⊢
  obtain ⟨table, bucket⟩ := found
  obtain rfl : bucket = _ := tokens
  rfl

/-- A call that is let through finds a token in its client's bucket, and takes
it. -/
theorem step_allowed (perMinute : Nat) (before after : State) (call : Call)
    (step : Step perMinute before call after) (allowed : call.allowed = true) :
    1 ≤ level perMinute before.buckets call.key call.time ∧
      after.buckets = (visit perMinute before.buckets call.key call.time).1.set call.key
        ⟨level perMinute before.buckets call.key call.time - 1, call.time⟩ := by
  obtain ⟨-, -, answered⟩ := step
  rw [allow_level] at answered
  by_cases poor : level perMinute before.buckets call.key call.time < 1
  · simp [poor, allowed] at answered
  · simp only [poor, if_false, Prod.mk.injEq] at answered
    exact ⟨not_lt.mp poor, answered.2.symm⟩

theorem step_refused (perMinute : Nat) (before after : State) (call : Call)
    (step : Step perMinute before call after) (refused : ¬ call.allowed = true) :
    after.buckets = (visit perMinute before.buckets call.key call.time).1.set call.key
      ⟨level perMinute before.buckets call.key call.time, call.time⟩ := by
  obtain ⟨-, -, answered⟩ := step
  rw [allow_level] at answered
  by_cases poor : level perMinute before.buckets call.key call.time < 1
  · simp only [poor, if_true, Prod.mk.injEq] at answered
    exact answered.2.symm
  · simp only [poor, if_false, Prod.mk.injEq] at answered
    exact absurd answered.1.symm refused

theorem step_level (perMinute : Nat) (positive : 1 ≤ perMinute) (before after : State)
    (call : Call) (sound : Sound before.buckets)
    (step : Guarded (Forgiving perMinute) (Step perMinute) before call after) (key : Text) :
    level perMinute after.buckets key call.time =
      level perMinute before.buckets key call.time - spent call key := by
  have others := visit_level perMinute positive before call sound step.2 key
  have few := level_capacity perMinute before.buckets call.key call.time
  unfold spent
  by_cases allowed : call.allowed = true
  · rw [(step_allowed perMinute before after call step.1 allowed).2, set_level _ _ _ _ _ _
      ((sub_le_self _ zero_le_one).trans few)]
    by_cases same : call.key = key
    · simp [same, allowed]
    · simp [same, Ne.symm same, others]
  · rw [step_refused perMinute before after call step.1 allowed, set_level _ _ _ _ _ _ few]
    by_cases same : call.key = key
    · simp [same, allowed]
    · simp [same, Ne.symm same, others]

theorem step_sound (perMinute : Nat) (before after : State) (call : Call)
    (sound : Sound before.buckets) (step : Step perMinute before call after)
    (solvent : 0 ≤ level perMinute before.buckets call.key call.time) : Sound after.buckets := by
  have visited := visit_sound perMinute before.buckets call.key call.time sound
  by_cases allowed : call.allowed = true
  · obtain ⟨rich, same⟩ := step_allowed perMinute before after call step allowed
    rw [same]
    exact set_sound _ _ _ visited (sub_nonneg.mpr rich)
  · rw [step_refused perMinute before after call step allowed]
    exact set_sound _ _ _ visited solvent

theorem level_mono (perMinute : Nat) (buckets : Buckets) (key : Text) (earlier later : ℚ)
    (order : earlier ≤ later) :
    level perMinute buckets key earlier ≤ level perMinute buckets key later := by
  have earned : earlier * refillPerSecond perMinute ≤ later * refillPerSecond perMinute :=
    mul_le_mul_of_nonneg_right order (refillPerSecond_nonneg perMinute)
  unfold level
  cases buckets.lookup key with
  | none => exact le_refl _
  | some bucket =>
      apply min_le_min_left
      linarith

theorem granted_next (key : Text) (s t : ℚ) (calls : List Call) (call : Call) :
    granted key s t (calls ++ [call]) =
      granted key s t calls +
        if (call.key = key ∧ s ≤ call.time ∧ call.time ≤ t) ∧ call.allowed = true
        then 1 else 0 := by
  simp [granted, List.countP_append, List.countP_cons, and_assoc]

/-- What one window has let through, against the tokens the client has left. -/
structure Account (perMinute : Nat) (key : Text) (s t : ℚ) (calls : List Call) (state : State) :
    Prop where
  sound : Sound state.buckets
  covered : ∀ other, 0 ≤ level perMinute state.buckets other state.clock
  before : state.clock < s → granted key s t calls = 0
  within : s ≤ state.clock → state.clock ≤ t →
    granted key s t calls + level perMinute state.buckets key state.clock ≤
      capacity perMinute + refillPerSecond perMinute * (state.clock - s)
  bound : (granted key s t calls : ℚ) ≤ capacity perMinute + refillPerSecond perMinute * (t - s)

theorem account_start (perMinute : Nat) (key : Text) (s t clock : ℚ) (order : s ≤ t) :
    Account perMinute key s t [] ⟨[], clock⟩ := by
  have full : (0 : ℚ) ≤ capacity perMinute := Nat.cast_nonneg perMinute
  have rate := refillPerSecond_nonneg perMinute
  constructor
  · constructor <;> simp
  · rintro other
    exact full
  · intro _
    rfl
  · intro started _
    have earned := mul_nonneg rate (sub_nonneg.mpr started)
    have fresh : level perMinute [] key clock = capacity perMinute := rfl
    simp only [granted, List.countP_nil, Nat.cast_zero, fresh]
    linarith
  · have earned := mul_nonneg rate (sub_nonneg.mpr order)
    simp only [granted, List.countP_nil, Nat.cast_zero]
    linarith

/-- By the time of a call inside the window, the client has earned what the
window has let through and what it still has. -/
theorem account_reached (perMinute : Nat) (key : Text) (s t now : ℚ) (calls : List Call)
    (state : State) (account : Account perMinute key s t calls state) (order : state.clock ≤ now)
    (started : s ≤ now) (going : now ≤ t) :
    granted key s t calls + level perMinute state.buckets key now ≤
      capacity perMinute + refillPerSecond perMinute * (now - s) := by
  have rate := refillPerSecond_nonneg perMinute
  by_cases entered : s ≤ state.clock
  · have spentSoFar := account.within entered (order.trans going)
    have earned := level_refill perMinute state.buckets key state.clock now order
    have split : refillPerSecond perMinute * (state.clock - s) +
        refillPerSecond perMinute * (now - state.clock) =
          refillPerSecond perMinute * (now - s) := by ring
    linarith
  · have none_yet := account.before (not_le.mp entered)
    have few := level_capacity perMinute state.buckets key now
    have earned := mul_nonneg rate (sub_nonneg.mpr started)
    rw [none_yet, Nat.cast_zero]
    linarith

theorem account_step (perMinute : Nat) (positive : 1 ≤ perMinute) (key : Text) (s t : ℚ)
    (calls : List Call) (before after : State) (call : Call)
    (account : Account perMinute key s t calls before)
    (step : Guarded (Forgiving perMinute) (Step perMinute) before call after) :
    Account perMinute key s t (calls ++ [call]) after := by
  obtain ⟨order, clock, -⟩ := step.1
  have levels := step_level perMinute positive before after call account.sound step
  have reached : ∀ other, 0 ≤ level perMinute before.buckets other call.time := fun other =>
    (account.covered other).trans (level_mono perMinute before.buckets other _ _ order)
  have paid : ∀ other, spent call other ≤ level perMinute before.buckets other call.time := by
    intro other
    unfold spent
    by_cases takes : call.key = other ∧ call.allowed = true
    · rw [if_pos takes, ← takes.1]
      exact (step_allowed perMinute before after call step.1 takes.2).1
    · rw [if_neg takes]
      exact reached other
  have counted := granted_next key s t calls call
  -- in the window, a call let through costs one token
  have windowed : s ≤ call.time → call.time ≤ t →
      (granted key s t (calls ++ [call]) : ℚ) = granted key s t calls + spent call key := by
    intro started going
    rw [counted]
    unfold spent
    by_cases takes : call.key = key ∧ call.allowed = true
    · simp [takes, started, going]
    · have misses : ¬ ((call.key = key ∧ s ≤ call.time ∧ call.time ≤ t) ∧ call.allowed = true) :=
        fun hit => takes ⟨hit.1.1, hit.2⟩
      rw [if_neg takes, if_neg misses]
      simp
  have outside : ¬ (s ≤ call.time ∧ call.time ≤ t) →
      granted key s t (calls ++ [call]) = granted key s t calls := by
    intro apart
    rw [counted, if_neg fun hit => apart hit.1.2]
    rfl
  constructor
  · exact step_sound perMinute before after call account.sound step.1 (reached call.key)
  · intro other
    rw [clock, levels other]
    exact sub_nonneg.mpr (paid other)
  · intro early
    rw [clock] at early
    rw [outside fun inside => absurd inside.1 (not_le.mpr early)]
    exact account.before (order.trans_lt early)
  · intro started going
    rw [clock] at started going ⊢
    rw [levels key, windowed started going]
    have earned := account_reached perMinute key s t call.time calls before account order started
      going
    linarith
  · by_cases inside : s ≤ call.time ∧ call.time ≤ t
    · rw [windowed inside.1 inside.2]
      have earned := account_reached perMinute key s t call.time calls before account order
        inside.1 inside.2
      have later : refillPerSecond perMinute * (call.time - s) ≤
          refillPerSecond perMinute * (t - s) :=
        mul_le_mul_of_nonneg_left (sub_le_sub_right inside.2 s) (refillPerSecond_nonneg perMinute)
      have spending := paid key
      linarith
    · rw [outside inside]
      exact account.bound

/-- While nobody who owes tokens is forgotten, no window lets more calls
through than the capacity and the refill of the window. -/
theorem allow_bounded (perMinute : Nat) (positive : 1 ≤ perMinute) (clock : ℚ) (calls : List Call)
    (state : State)
    (run : Run (Guarded (Forgiving perMinute) (Step perMinute)) ⟨[], clock⟩ calls state)
    (key : Text) (s t : ℚ) (order : s ≤ t) :
    (granted key s t calls : ℚ) ≤ perMinute + perMinute * (t - s) / 60 := by
  have account : Account perMinute key s t calls state := by
    induction run with
    | refl => exact account_start perMinute key s t clock order
    | next _ taken ih =>
        exact account_step perMinute positive key s t _ _ _ _ ih taken
  have bound := account.bound
  have same : capacity perMinute + refillPerSecond perMinute * (t - s) =
      perMinute + perMinute * (t - s) / 60 := by
    unfold capacity refillPerSecond
    ring
  rwa [same] at bound

def client (letters : Nat) : Text := List.replicate letters 'a'

/-- With one request a minute each, `count` clients have just made theirs. -/
def crowd (count : Nat) : Buckets := (List.range count).map fun letters => (client letters, ⟨0, 0⟩)

def arrivals (count : Nat) : List Call :=
  (List.range count).map fun letters => ⟨client letters, 0, true⟩

theorem client_injective : Function.Injective client := by
  intro left right same
  have lengths := congrArg List.length same
  simpa [client] using lengths

theorem crowd_absent (count : Nat) : (crowd count).lookup (client count) = none := by
  apply List.lookup_eq_none_iff.mpr
  rintro entry member
  obtain ⟨letters, inside, rfl⟩ := List.mem_map.mp member
  have apart : client count ≠ client letters := by
    intro same
    have := client_injective same
    rw [List.mem_range] at inside
    omega
  simpa using apart

theorem crowd_filter (count : Nat) :
    (crowd count).filter (·.1 ≠ client count) = crowd count := by
  apply List.filter_eq_self.mpr
  intro entry member
  have absent := List.lookup_eq_none_iff.mp (crowd_absent count) entry member
  exact decide_eq_true (Ne.symm (bne_iff_ne.mp absent))

def Room (before : State) (_ : Call) : Prop := before.buckets.length < maxTrackedKeys

theorem crowd_arrives (count : Nat) (room : count ≤ maxTrackedKeys) :
    Run (Guarded Room (Step 1)) ⟨[], 0⟩ (arrivals count) ⟨crowd count, 0⟩ := by
  induction count with
  | zero => exact .refl
  | succ count ih =>
      have grown : crowd (count + 1) = (crowd count).set (client count) ⟨0, 0⟩ := by
        unfold Buckets.set
        rw [crowd_filter]
        simp [crowd, List.range_succ]
      have more : arrivals (count + 1) = arrivals count ++ [⟨client count, 0, true⟩] := by
        simp [arrivals, List.range_succ]
      have enough : (crowd count).length < maxTrackedKeys := by
        simpa [crowd] using Nat.lt_of_succ_le room
      have fresh : level 1 (crowd count) (client count) 0 = 1 := by
        unfold level
        rw [crowd_absent]
        rfl
      rw [more, grown]
      apply Run.next (ih (Nat.le_of_succ_le room))
      constructor
      · constructor
        · exact le_refl _
        · constructor
          · rfl
          · rw [allow_level, fresh]
            simp [visit, crowd_absent, not_le.mpr enough]
      · exact enough

theorem crowd_refilled (count : Nat) : dropFull 1 (crowd count) 60 = [] := by
  apply List.filter_eq_nil_iff.mpr
  intro entry member
  obtain ⟨letters, -, rfl⟩ := List.mem_map.mp member
  have wait : capacity 1 / refillPerSecond 1 ≤ 60 := by decide +kernel
  simpa using wait

theorem crowd_evicted (count : Nat) (full : maxTrackedKeys ≤ count) :
    visit 1 (crowd count) (client count) 60 = ([], ⟨1, 60⟩) := by
  have crowded : maxTrackedKeys ≤ (crowd count).length := by simpa [crowd] using full
  unfold visit evictFull
  rw [crowd_absent, crowd_refilled]
  simp [crowded, capacity]

theorem alone_absent {count : Nat} (some_client : 0 < count) (bucket : Bucket) :
    ([(client count, bucket)] : Buckets).lookup (client 0) = none := by
  have apart : (client 0 == client count) = false := by
    simpa using fun same => absurd (client_injective same) (Nat.ne_of_lt some_client)
  simp [List.lookup, apart]

/-- One client more a minute later; then the first client comes back. -/
def minuteOn (count : Nat) : List Call :=
  arrivals count ++ [⟨client count, 60, true⟩] ++ [⟨client 0, 60, true⟩]

theorem crowd_forgiven (count : Nat) (full : count = maxTrackedKeys) :
    ∃ state, Run (Guarded (Forgiving 1) (Step 1)) ⟨[], 0⟩ (minuteOn count) state := by
  have filled : Run (Guarded (Forgiving 1) (Step 1)) ⟨[], 0⟩ (arrivals count) ⟨crowd count, 0⟩ := by
    apply run_mono _ (crowd_arrives count (le_of_eq full))
    rintro before call after ⟨step, room⟩
    exact ⟨step, fun clears => absurd clears.2.1 (not_le.mpr room)⟩
  have evicted := crowd_evicted count (le_of_eq full.symm)
  have some_client : 0 < count := by
    rw [full]
    decide
  have newcomer : Guarded (Forgiving 1) (Step 1) ⟨crowd count, 0⟩ ⟨client count, 60, true⟩
      ⟨[(client count, ⟨0, 60⟩)], 60⟩ := by
    constructor
    · refine ⟨by norm_num, rfl, ?_⟩
      unfold allow
      rw [evicted]
      simp [Buckets.set]
    · rintro ⟨-, -, standing⟩
      -- who has refilled goes one by one, so the table is never cleared as a whole
      change maxTrackedKeys ≤ (dropFull 1 (crowd count) 60).length at standing
      rw [crowd_refilled] at standing
      exact absurd standing (by decide)
  have absent := alone_absent some_client ⟨0, 60⟩
  have back : Guarded (Forgiving 1) (Step 1) ⟨[(client count, ⟨0, 60⟩)], 60⟩ ⟨client 0, 60, true⟩
      ⟨Buckets.set [(client count, ⟨0, 60⟩)] (client 0) ⟨0, 60⟩, 60⟩ := by
    constructor
    · refine ⟨le_refl _, rfl, ?_⟩
      have room : ¬ maxTrackedKeys ≤ 1 := by decide
      unfold allow visit
      rw [absent]
      simp [room, capacity]
    · rintro ⟨-, crowded, -⟩
      change maxTrackedKeys ≤ 1 at crowded
      exact absurd crowded (by decide)
  exact ⟨_, .next (.next filled newcomer) back⟩

theorem arrivals_granted (count : Nat) (some_client : 0 < count) (t : ℚ) (later : 0 ≤ t) :
    0 < granted (client 0) 0 t (arrivals count) := by
  apply List.countP_pos_iff.mpr
  refine ⟨⟨client 0, 0, true⟩, List.mem_map.mpr ⟨0, List.mem_range.mpr some_client, rfl⟩, ?_⟩
  simp [later]

/-- The first client has called twice in that minute, as often as the bound allows. -/
theorem allow_bounded_crowd :
    2 ≤ granted (client 0) 0 60 (minuteOn maxTrackedKeys) ∧
    (granted (client 0) 0 60 (minuteOn maxTrackedKeys) : ℚ) ≤
      (1 : Nat) + (1 : Nat) * (60 - 0) / 60 := by
  obtain ⟨state, forgiven⟩ := crowd_forgiven maxTrackedKeys rfl
  constructor
  · have first := arrivals_granted maxTrackedKeys (by decide) 60 (by norm_num)
    unfold minuteOn
    rw [granted_next, granted_next]
    simp only [le_refl, and_true, Nat.ofNat_nonneg, if_true]
    omega
  · exact allow_bounded 1 (by decide) 0 _ state forgiven (client 0) 0 60 (by norm_num)

theorem crowd_cleared (count : Nat) (full : maxTrackedKeys ≤ count) :
    evictFull 1 (crowd count) 0 = [] := by
  have kept : dropFull 1 (crowd count) 0 = crowd count := by
    apply List.filter_eq_self.mpr
    intro entry member
    obtain ⟨letters, -, rfl⟩ := List.mem_map.mp member
    have wait : ¬ capacity 1 / refillPerSecond 1 ≤ 0 := by decide +kernel
    simpa using wait
  have crowded : maxTrackedKeys ≤ (crowd count).length := by simpa [crowd] using full
  unfold evictFull
  rw [kept]
  exact if_pos crowded

/-- One client more and the table is emptied; the first client comes back at
once and is let through again. -/
theorem crowd_returns (count : Nat) (full : count = maxTrackedKeys) :
    ∃ state, Run (Step 1) ⟨[], 0⟩
      (arrivals count ++ [⟨client count, 0, true⟩] ++ [⟨client 0, 0, true⟩]) state := by
  have filled := guarded_run (crowd_arrives count (le_of_eq full))
  have crowded : maxTrackedKeys ≤ (crowd count).length := by
    simpa [crowd] using le_of_eq full.symm
  have fresh : level 1 (crowd count) (client count) 0 = 1 := by
    unfold level
    rw [crowd_absent]
    rfl
  have clearing : Step 1 ⟨crowd count, 0⟩ ⟨client count, 0, true⟩
      ⟨[(client count, ⟨0, 0⟩)], 0⟩ := by
    constructor
    · exact le_refl _
    · constructor
      · rfl
      · rw [allow_level, fresh]
        simp [visit, crowd_absent, crowded, crowd_cleared count (le_of_eq full.symm), Buckets.set]
  have some_client : 0 < count := by
    rw [full]
    decide
  have absent := alone_absent some_client ⟨0, 0⟩
  have renewed : level 1 [(client count, ⟨0, 0⟩)] (client 0) 0 = 1 := by
    unfold level
    rw [absent]
    rfl
  have alone : ¬ maxTrackedKeys ≤ 1 := by decide
  have again : Step 1 ⟨[(client count, ⟨0, 0⟩)], 0⟩ ⟨client 0, 0, true⟩
      ⟨Buckets.set [(client count, ⟨0, 0⟩)] (client 0) ⟨0, 0⟩, 0⟩ := by
    constructor
    · exact le_refl _
    · constructor
      · rfl
      · rw [allow_level, renewed]
        simp [visit, absent, alone]
  exact ⟨_, .next (.next filled clearing) again⟩

theorem crowd_granted (count : Nat) (some_client : 0 < count) :
    2 ≤ granted (client 0) 0 0
      (arrivals count ++ [⟨client count, 0, true⟩] ++ [⟨client 0, 0, true⟩]) := by
  have first := arrivals_granted count some_client 0 (le_refl 0)
  rw [granted_next, granted_next]
  simp only [le_refl, and_self, if_true]
  omega

theorem allow_unbounded :
    ¬ ∀ perMinute : Nat, 1 ≤ perMinute → ∀ (clock : ℚ) (calls : List Call) (state : State),
      Run (Step perMinute) ⟨[], clock⟩ calls state → ∀ (key : Text) (s t : ℚ), s ≤ t →
        (granted key s t calls : ℚ) ≤ perMinute + perMinute * (t - s) / 60 := by
  intro bounded
  obtain ⟨state, run⟩ := crowd_returns maxTrackedKeys rfl
  have few := bounded 1 (le_refl _) 0 _ state run (client 0) 0 0 (le_refl _)
  have many := Nat.cast_le (α := ℚ).mpr (crowd_granted maxTrackedKeys (by decide))
  rw [sub_self, mul_zero, zero_div, add_zero, Nat.cast_one] at few
  have absurdity := many.trans few
  norm_num at absurdity

end SecureFileSystem.RateLimit
