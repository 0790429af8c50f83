import SecureFileSystem.RateLimit

/-!
Forgetting refilled clients. The limiter answers as one that remembers every
client ever seen, as long as a full table always holds someone who has not
called for a minute.
-/

namespace SecureFileSystem.Eviction

open Base Transition Assoc RateLimit

/-- `visit` when the table never fills up. -/
def visitUnbounded (perMinute : Nat) (buckets : Buckets) (key : Text) (now : ℚ) :
    Buckets × Bucket :=
  match buckets.lookup key with
  | none => (buckets, ⟨capacity perMinute, now⟩)
  | some bucket => (buckets, ⟨refilled perMinute bucket now, now⟩)

def allowUnbounded (perMinute : Nat) (buckets : Buckets) (key : Text) (now : ℚ) :
    Bool × Buckets :=
  let (table, bucket) := visitUnbounded perMinute buckets key now
  if bucket.tokens < 1 then (false, table.set key bucket)
  else (true, table.set key { bucket with tokens := bucket.tokens - 1 })

def callUnbounded (perMinute : Nat) (done : List Bool × Buckets) (asked : Text × ℚ) :
    List Bool × Buckets :=
  let answer := allowUnbounded perMinute done.2 asked.1 asked.2
  (done.1 ++ [answer.1], answer.2)

def callsUnbounded (perMinute : Nat) (asked : List (Text × ℚ)) : List Bool × Buckets :=
  asked.foldl (callUnbounded perMinute) ([], [])

def askedBy (call : Call) : Text × ℚ := (call.key, call.time)

/-- A new client at a full table comes when somebody has been quiet for a minute. -/
def Quiet (before : State) (call : Call) : Prop :=
  before.buckets.lookup call.key = none → maxTrackedKeys ≤ before.buckets.length →
    ∃ entry ∈ before.buckets, 60 ≤ call.time - entry.2.updated

structure Kept (perMinute : Nat) (state : State) : Prop where
  sound : Sound state.buckets
  few : state.buckets.length ≤ maxTrackedKeys
  within : ∀ entry ∈ state.buckets, entry.2.tokens ≤ capacity perMinute
  past : ∀ entry ∈ state.buckets, entry.2.updated ≤ state.clock

section Table
variable {perMinute : Nat} {before after : State} {call : Call}

theorem visit_subset (buckets : Buckets) (key : Text) (now : ℚ) :
    (visit perMinute buckets key now).1 ⊆ buckets := by
  unfold visit
  split
  · split
    · unfold evictFull
      dsimp only
      split
      · exact List.nil_subset _
      · exact List.filter_subset_self _
    · exact List.Subset.refl _
  · exact List.Subset.refl _

theorem visit_few (buckets : Buckets) (key : Text) (now : ℚ) (bucket : Bucket)
    (few : buckets.length ≤ maxTrackedKeys) :
    ((visit perMinute buckets key now).1.set key bucket).length ≤ maxTrackedKeys := by
  have grown : ∀ table : Buckets, (table.set key bucket).length ≤ table.length + 1 := by
    intro table
    simpa [Buckets.set] using List.length_filter_le (fun entry => decide (entry.1 ≠ key)) table
  unfold visit
  cases found : buckets.lookup key with
  | some held =>
      -- the client's old bucket makes room for the new one
      have gone : (buckets.filter (·.1 ≠ key)).length < buckets.length := by
        apply List.length_filter_lt_length_iff_exists.mpr
        exact ⟨(key, held), mem_of_lookup _ _ _ found, by simp⟩
      simp only [Buckets.set, List.length_append, List.length_singleton]
      omega
  | none =>
      dsimp only
      apply (grown _).trans
      split
      · unfold evictFull
        dsimp only
        split
        · simp [maxTrackedKeys]
        · omega
      · omega

theorem level_solvent (kept : Kept perMinute before) (key : Text) (now : ℚ)
    (order : before.clock ≤ now) : 0 ≤ level perMinute before.buckets key now := by
  have full : (0 : ℚ) ≤ capacity perMinute := Nat.cast_nonneg perMinute
  unfold level
  cases found : before.buckets.lookup key with
  | none => exact full
  | some bucket =>
      have member := mem_of_lookup _ _ _ found
      have solvent := kept.sound.solvent _ member
      have passed := (kept.past _ member).trans order
      have earned := mul_nonneg (sub_nonneg.mpr passed) (refillPerSecond_nonneg perMinute)
      exact le_min full (add_nonneg solvent earned)

theorem step_table (step : Step perMinute before call after) (kept : Kept perMinute before) :
    ∃ tokens, 0 ≤ tokens ∧ tokens ≤ capacity perMinute ∧
      after.buckets = (visit perMinute before.buckets call.key call.time).1.set call.key
        ⟨tokens, call.time⟩ := by
  have few := level_capacity perMinute before.buckets call.key call.time
  by_cases allowed : call.allowed = true
  · obtain ⟨rich, same⟩ := step_allowed perMinute before after call step allowed
    exact ⟨_, sub_nonneg.mpr rich, (sub_le_self _ zero_le_one).trans few, same⟩
  · have same := step_refused perMinute before after call step allowed
    exact ⟨_, level_solvent kept call.key call.time step.1, few, same⟩

theorem step_kept (step : Step perMinute before call after) (kept : Kept perMinute before) :
    Kept perMinute after := by
  obtain ⟨tokens, solvent, most, same⟩ := step_table step kept
  obtain ⟨order, clock, -⟩ := step
  have visited := visit_sound perMinute before.buckets call.key call.time kept.sound
  have entries : ∀ entry ∈ after.buckets,
      entry ∈ before.buckets ∨ entry = (call.key, ⟨tokens, call.time⟩) := by
    intro entry member
    rw [same] at member
    rcases List.mem_append.mp member with old | new
    · exact Or.inl (visit_subset _ _ _ (List.mem_of_mem_filter old))
    · exact Or.inr (List.mem_singleton.mp new)
  constructor
  case sound =>
    rw [same]
    exact set_sound _ _ _ visited solvent
  case few =>
    rw [same]
    exact visit_few _ _ _ _ kept.few
  case within =>
    intro entry member
    rcases entries entry member with old | rfl
    · exact kept.within entry old
    · exact most
  case past =>
    intro entry member
    rw [clock]
    rcases entries entry member with old | rfl
    · exact (kept.past entry old).trans order
    · exact le_refl _

/-- The refill time of a bucket is a minute, whatever the rate. -/
theorem refill_minute (positive : 1 ≤ perMinute) :
    capacity perMinute / refillPerSecond perMinute = 60 := by
  have nonzero : (perMinute : ℚ) ≠ 0 := by
    have := Nat.one_le_iff_ne_zero.mp positive
    exact_mod_cast this
  unfold capacity refillPerSecond
  field_simp

/-- Whoever has been quiet for a minute goes, so the table is not emptied. -/
theorem quiet_forgiving (positive : 1 ≤ perMinute) (kept : Kept perMinute before)
    (quiet : Quiet before call) : Forgiving perMinute before call := by
  rintro ⟨absent, full, crowded⟩
  obtain ⟨entry, member, idle⟩ := quiet absent full
  have fewer : (dropFull perMinute before.buckets call.time).length < before.buckets.length := by
    apply List.length_filter_lt_length_iff_exists.mpr
    refine ⟨entry, member, ?_⟩
    rw [refill_minute positive]
    simpa using idle
  have few := kept.few
  omega

end Table

section Unbounded
variable {perMinute : Nat}

theorem allowUnbounded_level (buckets : Buckets) (key : Text) (now : ℚ) :
    allowUnbounded perMinute buckets key now =
      if level perMinute buckets key now < 1 then
        (false, buckets.set key ⟨level perMinute buckets key now, now⟩)
      else (true, buckets.set key ⟨level perMinute buckets key now - 1, now⟩) := by
  unfold allowUnbounded visitUnbounded level
  cases buckets.lookup key with
  | none => rfl
  | some bucket => rfl

theorem level_later (buckets : Buckets) (key : Text) {earlier later : ℚ}
    (order : earlier ≤ later) : level perMinute buckets key later =
      min (capacity perMinute) (level perMinute buckets key earlier +
        (later - earlier) * refillPerSecond perMinute) := by
  have gained : 0 ≤ (later - earlier) * refillPerSecond perMinute :=
    mul_nonneg (sub_nonneg.mpr order) (refillPerSecond_nonneg perMinute)
  unfold level
  cases buckets.lookup key with
  | none => exact (min_eq_left (le_add_of_nonneg_right gained)).symm
  | some bucket =>
      have split : bucket.tokens + (later - bucket.updated) * refillPerSecond perMinute =
          bucket.tokens + (earlier - bucket.updated) * refillPerSecond perMinute +
            (later - earlier) * refillPerSecond perMinute := by ring
      simp only [refilled]
      rw [split, ← min_add_add_right, ← min_assoc,
        min_eq_left (le_add_of_nonneg_right gained)]

/-- The two limiters have given the same answers, and every client would find the
same tokens in both. -/
structure Alike (perMinute : Nat) (calls : List Call) (state : State) : Prop where
  answers : (callsUnbounded perMinute (calls.map askedBy)).1 = calls.map (·.allowed)
  levels : ∀ key, level perMinute (callsUnbounded perMinute (calls.map askedBy)).2 key
    state.clock = level perMinute state.buckets key state.clock

theorem allowUnbounded_answer (buckets : Buckets) (key : Text) (now : ℚ) :
    (allowUnbounded perMinute buckets key now).1 =
      decide (1 ≤ level perMinute buckets key now) := by
  rw [allowUnbounded_level]
  by_cases poor : level perMinute buckets key now < 1
  · rw [if_pos poor]
    exact (decide_eq_false (not_le.mpr poor)).symm
  · rw [if_neg poor]
    exact (decide_eq_true (not_lt.mp poor)).symm

theorem allowUnbounded_spends (buckets : Buckets) (key other : Text) (now : ℚ) :
    level perMinute (allowUnbounded perMinute buckets key now).2 other now =
      level perMinute buckets other now -
        if key = other ∧ 1 ≤ level perMinute buckets key now then 1 else 0 := by
  have few := level_capacity perMinute buckets key now
  rw [allowUnbounded_level]
  by_cases poor : level perMinute buckets key now < 1
  · have nothing : ¬ (key = other ∧ 1 ≤ level perMinute buckets key now) :=
      fun rich => not_le.mpr poor rich.2
    rw [if_pos poor, set_level _ _ _ _ _ _ few, if_neg nothing, sub_zero]
    split
    · subst other
      rfl
    · rfl
  · have rich := not_lt.mp poor
    rw [if_neg poor, set_level _ _ _ _ _ _ ((sub_le_self _ zero_le_one).trans few)]
    by_cases same : other = key
    · subst other
      simp [rich]
    · simp [same, Ne.symm same]

/-- The table with evictions answers by the tokens its client finds. -/
theorem step_answer {before after : State} {call : Call}
    (step : Step perMinute before call after) :
    call.allowed = decide (1 ≤ level perMinute before.buckets call.key call.time) := by
  by_cases allowed : call.allowed = true
  · have rich := (step_allowed perMinute before after call step allowed).1
    rw [allowed, decide_eq_true rich]
  · obtain ⟨-, -, answered⟩ := step
    rw [allow_level] at answered
    by_cases poor : level perMinute before.buckets call.key call.time < 1
    · rw [decide_eq_false (not_le.mpr poor)]
      simpa using allowed
    · rw [if_neg poor] at answered
      exact absurd (Prod.mk.inj answered).1.symm allowed

theorem calls_last (calls : List Call) (call : Call) :
    callsUnbounded perMinute ((calls ++ [call]).map askedBy) =
      callUnbounded perMinute (callsUnbounded perMinute (calls.map askedBy)) (askedBy call) := by
  rw [List.map_append, callsUnbounded, List.foldl_append]
  rfl

/-- Between two calls both limiters let tokens in alike, whatever was forgotten. -/
theorem alike_step (positive : 1 ≤ perMinute) {calls : List Call} {before after : State}
    {call : Call} (alike : Alike perMinute calls before) (kept : Kept perMinute before)
    (step : Guarded Quiet (Step perMinute) before call after) :
    Alike perMinute (calls ++ [call]) after := by
  obtain ⟨order, clock, -⟩ := step.1
  have forgiving := quiet_forgiving positive kept step.2
  have spends := step_level perMinute positive before after call kept.sound ⟨step.1, forgiving⟩
  have answer := step_answer step.1
  have found : ∀ key, level perMinute (callsUnbounded perMinute (calls.map askedBy)).2 key
      call.time = level perMinute before.buckets key call.time := by
    intro key
    rw [level_later _ _ order, level_later _ _ order, alike.levels key]
  constructor
  case answers =>
    rw [calls_last, callUnbounded, List.map_append, alike.answers]
    dsimp only [askedBy]
    rw [allowUnbounded_answer, found, ← answer]
    rfl
  case levels =>
    intro key
    rw [calls_last, callUnbounded, clock, spends]
    dsimp only [askedBy]
    rw [allowUnbounded_spends, found, found]
    simp only [spent, answer, decide_eq_true_eq]

end Unbounded

/-- The table stays bounded and no bucket leaves its range; and while a full table
always holds a client that has been quiet for a minute, nobody can tell that
clients are forgotten. -/
theorem eviction_invisible (perMinute : Nat) (positive : 1 ≤ perMinute) (clock : ℚ)
    (calls : List Call) (state : State) (run : Run (Step perMinute) ⟨[], clock⟩ calls state) :
    state.buckets.length ≤ maxTrackedKeys ∧
    (∀ entry ∈ state.buckets, 0 ≤ entry.2.tokens ∧ entry.2.tokens ≤ perMinute) ∧
    (Run (Guarded Quiet (Step perMinute)) ⟨[], clock⟩ calls state →
      (callsUnbounded perMinute (calls.map askedBy)).1 = calls.map (·.allowed)) := by
  have start : Kept perMinute ⟨[], clock⟩ := by
    constructor
    · constructor <;> simp
    · exact Nat.zero_le _
    · simp
    · simp
  have kept := run_invariant (fun _ _ _ kept step => step_kept step kept) run start
  refine ⟨kept.few, fun entry member => ⟨kept.sound.solvent entry member,
    kept.within entry member⟩, fun quiet => ?_⟩
  have alike : Alike perMinute calls state ∧ Kept perMinute state := by
    clear run kept
    induction quiet with
    | refl => exact ⟨⟨rfl, fun _ => rfl⟩, start⟩
    | next _ step ih => exact ⟨alike_step positive ih.1 ih.2 step, step_kept step.1 ih.2⟩
  exact alike.1.answers

def minuteLater (count : Nat) : List Call := arrivals count ++ [⟨client count, 60, true⟩]

theorem crowd_minute (count : Nat) (full : count = maxTrackedKeys) :
    ∃ state, Run (Guarded Quiet (Step 1)) ⟨[], 0⟩ (minuteLater count) state := by
  have filled : Run (Guarded Quiet (Step 1)) ⟨[], 0⟩ (arrivals count) ⟨crowd count, 0⟩ := by
    apply run_mono _ (crowd_arrives count (le_of_eq full))
    rintro before call after ⟨step, room⟩
    exact ⟨step, fun _ crowded => absurd room (not_lt.mpr crowded)⟩
  have crowded : maxTrackedKeys ≤ (crowd count).length := by
    simpa [crowd] using le_of_eq full.symm
  have some_client : 0 < count := by
    rw [full]
    decide
  have fresh : level 1 (crowd count) (client count) 60 = 1 := by
    unfold level
    rw [crowd_absent]
    rfl
  have idle : (client 0, (⟨0, 0⟩ : Bucket)) ∈ crowd count :=
    List.mem_map.mpr ⟨0, List.mem_range.mpr some_client, rfl⟩
  refine ⟨⟨(visit 1 (crowd count) (client count) 60).1.set (client count) ⟨0, 60⟩, 60⟩, ?_⟩
  apply Run.next filled
  constructor
  · constructor
    · norm_num
    · constructor
      · rfl
      · rw [allow_level, fresh]
        simp
  · intro _ _
    exact ⟨_, idle, by norm_num⟩

theorem eviction_invisible_crowd :
    (callsUnbounded 1 ((minuteLater maxTrackedKeys).map askedBy)).1 =
      (minuteLater maxTrackedKeys).map Call.allowed := by
  obtain ⟨state, quiet⟩ := crowd_minute maxTrackedKeys rfl
  exact (eviction_invisible 1 (le_refl 1) 0 (minuteLater maxTrackedKeys) state
    (guarded_run quiet)).2.2 quiet

end SecureFileSystem.Eviction
