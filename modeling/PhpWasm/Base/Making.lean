import Mathlib.Data.List.Nodup
import Mathlib.Logic.Relation

/-!
# Making targets

A target is made after what it needs.  `make` goes through its goals from left to right, makes
what a goal needs first, and then runs the recipe of the goal, unless it is up to date or was looked
at before; it stops where a recipe fails.

* `Sound` is the invariant: what was made so far was made after what it needs, and once.
* `Goes` is what one target adds to a run, and `makeOne_goes` that it is kept from the needs of a
  target to the target: by induction on the fuel, which a rank of the targets bounds.
* `make_spec` is what comes of a run.
-/

set_option autoImplicit false

namespace Making

variable {α : Type*}

/-- How far a run has come. -/
structure Progress (α : Type*) where
  /-- No recipe has failed. -/
  ok : Bool
  /-- The targets that are made, or were found to be up to date. -/
  made : List α
  /-- The recipes that were run. -/
  runs : List α

/-- Nothing is done yet. -/
def Progress.start : Progress α := ⟨true, [], []⟩

variable (needs : α → List α) (upToDate works : α → Bool)

/-- The recipe of a target whose needs are made. -/
def recipe (t : α) (m : Progress α) : Progress α :=
  if upToDate t then { m with made := m.made ++ [t] }
  else if works t then { m with made := m.made ++ [t], runs := m.runs ++ [t] }
  else { m with ok := false, runs := m.runs ++ [t] }

/-- One target after another, until one fails. -/
def makeAll (one : α → Progress α → Progress α) : List α → Progress α → Progress α
  | [], m => m
  | t :: ts, m => if (one t m).ok then makeAll one ts (one t m) else one t m

variable [DecidableEq α]

/-- One target, with what it needs. -/
def makeOne : ℕ → α → Progress α → Progress α
  | 0, _, m => { m with ok := false }
  | fuel + 1, t, m =>
    if t ∈ m.made then m
    else
      let m := makeAll (makeOne fuel) (needs t) m
      if m.ok then recipe upToDate works t m else m

/-- The goals. -/
def make (fuel : ℕ) (goals : List α) : Progress α :=
  makeAll (makeOne needs upToDate works fuel) goals .start

/-! ## What holds of a run -/

omit [DecidableEq α]

/-- A goal needs the target, or it is one. -/
def Needed (goals : List α) (t : α) : Prop :=
  ∃ g ∈ goals, Relation.ReflTransGen (fun a n => n ∈ needs a) g t

/-- Every target comes after what it needs. -/
def Ordered (l : List α) : Prop :=
  ∀ before t after, l = before ++ t :: after → ∀ n ∈ needs t, n ∈ before

/-- **What holds at every moment of a run.** -/
structure Sound (m : Progress α) : Prop where
  ordered : Ordered needs m.made
  once : m.made.Nodup
  /-- The recipes of what is made were run, and that of one target that has failed. -/
  runs : m.runs = m.made.filter (fun t => !upToDate t) ∧ m.ok = true ∨
    m.ok = false ∧ ∃ t, m.runs = m.made.filter (fun t => !upToDate t) ++ [t] ∧
      upToDate t = false ∧ works t = false ∧ t ∉ m.made ∧ ∀ n ∈ needs t, n ∈ m.made
  /-- What is made was up to date, or its recipe works. -/
  honest : ∀ t ∈ m.made, upToDate t = true ∨ works t = true

/-- The run goes on from `m` to `m'`, for the sake of the goals. -/
structure Goes (goals : List α) (m m' : Progress α) : Prop where
  sound : Sound needs upToDate works m'
  made : m.made <+: m'.made
  /-- Where nothing fails, the goals are made. -/
  reached : m'.ok = true → ∀ t ∈ goals, t ∈ m'.made
  /-- Nothing else is looked at than what the goals need. -/
  needed : ∀ t ∈ m'.made ++ m'.runs, t ∈ m.made ++ m.runs ∨ Needed needs goals t

variable {needs upToDate works}

theorem Needed.mono {goals goals' : List α} (h : goals ⊆ goals') {t : α}
    (ht : Needed needs goals t) : Needed needs goals' t := by
  obtain ⟨g, hg, hreaches⟩ := ht
  exact ⟨g, h hg, hreaches⟩

/-- What a need of the target needs, the target needs. -/
theorem Needed.of_needs {t t' : α} (h : Needed needs (needs t) t') : Needed needs [t] t' := by
  obtain ⟨n, hn, hreaches⟩ := h
  exact ⟨t, List.mem_singleton_self t, .head hn hreaches⟩

theorem Needed.rank_le {rank : α → ℕ} (hrank : ∀ t, ∀ n ∈ needs t, rank n < rank t)
    {goals : List α} {t : α} (h : Needed needs goals t) : ∃ g ∈ goals, rank t ≤ rank g := by
  obtain ⟨g, hg, hreaches⟩ := h
  refine ⟨g, hg, ?_⟩
  induction hreaches with
  | refl => exact Nat.le_refl _
  | tail _ hneeds ih => exact Nat.le_trans (Nat.le_of_lt (hrank _ _ hneeds)) ih

theorem sound_start : Sound needs upToDate works (.start : Progress α) where
  ordered before t after h := by
    have hlength := congrArg List.length h
    simp [Progress.start] at hlength
  once := List.nodup_nil
  runs := .inl ⟨rfl, rfl⟩
  honest := nofun

theorem Sound.runs_of_ok {m : Progress α} (h : Sound needs upToDate works m) (hok : m.ok = true) :
    m.runs = m.made.filter (fun t => !upToDate t) := by
  rcases h.runs with ⟨hruns, -⟩ | ⟨hfailed, -⟩
  · exact hruns
  · rw [hok] at hfailed
    cases hfailed

/-- One more target keeps everything behind what it needs. -/
theorem Ordered.concat {l : List α} (h : Ordered needs l) {t : α} (ht : ∀ n ∈ needs t, n ∈ l) :
    Ordered needs (l ++ [t]) := by
  intro before t' after heq
  rcases List.eq_nil_or_concat after with rfl | ⟨after', last, rfl⟩
  · obtain ⟨rfl, hlast⟩ := List.append_inj' heq rfl
    rw [← List.singleton_inj.1 hlast]
    exact ht
  · rw [List.concat_eq_append, ← List.cons_append, ← List.append_assoc] at heq
    obtain ⟨rfl, -⟩ := List.append_inj' heq rfl
    exact h before t' after' rfl

/-- What is made has all that it needs made. -/
theorem Ordered.of_needed {l goals : List α} (h : Ordered needs l) (hgoals : goals ⊆ l) {t : α}
    (ht : Needed needs goals t) : t ∈ l := by
  obtain ⟨g, hg, hreaches⟩ := ht
  induction hreaches with
  | refl => exact hgoals hg
  | tail _ hneeds ih =>
    obtain ⟨before, after, rfl⟩ := List.append_of_mem ih
    exact List.mem_append_left _ (h before _ after rfl _ hneeds)

/-- Those of the targets that are picked come after what they need and is picked. -/
theorem Ordered.filter {l : List α} (h : Ordered needs l) {p : α → Bool} {before : List α} {t : α}
    {after : List α} (heq : l.filter p = before ++ t :: after) :
    ∀ n ∈ needs t, p n = true → n ∈ before := by
  intro n hn hp
  obtain ⟨l₁, l₂, rfl, rfl, hl₂⟩ := List.filter_eq_append_iff.1 heq
  obtain ⟨skipped, rest, rfl, hskipped, -, -⟩ := List.filter_eq_cons_iff.1 hl₂
  rw [← List.append_assoc] at h
  rcases List.mem_append.1 (h _ t rest rfl n hn) with hfirst | hskip
  · exact List.mem_filter.2 ⟨hfirst, hp⟩
  · exact absurd hp (hskipped n hskip)

/-- The recipes that were run are those of targets that were not up to date, in order. -/
theorem Sound.exists_runs {m : Progress α} (h : Sound needs upToDate works m) :
    ∃ l, Ordered needs l ∧ l.Nodup ∧ m.runs = l.filter (fun t => !upToDate t) := by
  rcases h.runs with ⟨hruns, -⟩ | ⟨-, t, hruns, hup, -, ht, hneeds⟩
  · exact ⟨m.made, h.ordered, h.once, hruns⟩
  · refine ⟨m.made ++ [t], h.ordered.concat hneeds, List.nodup_append.2 ⟨h.once,
      List.nodup_singleton t, fun a ha b hb hab => ht (List.mem_singleton.1 hb ▸ hab ▸ ha)⟩, ?_⟩
    rw [hruns, List.filter_append]
    simp [hup]

/-- All recipes work but the last one, and that one too where the run goes through. -/
theorem Sound.all_work {m : Progress α} (h : Sound needs upToDate works m) :
    (∀ t ∈ m.runs.dropLast, works t = true) ∧ (m.ok = true ↔ ∀ t ∈ m.runs, works t = true) := by
  have hfilter : ∀ t ∈ m.made.filter (fun t => !upToDate t), works t = true := by
    intro t ht
    obtain ⟨hmade, hup⟩ := List.mem_filter.1 ht
    exact (h.honest t hmade).resolve_left fun h => by simp [h] at hup
  rcases h.runs with ⟨hruns, hok⟩ | ⟨hok, t, hruns, -, hfails, -⟩
  · rw [hruns]
    exact ⟨fun t ht => hfilter t (List.dropLast_subset _ ht), fun _ => hfilter, fun _ => hok⟩
  · rw [hruns, List.dropLast_concat]
    refine ⟨hfilter, fun h => ?_, fun h => ?_⟩
    · rw [hok] at h
      cases h
    · rw [h t (List.mem_append_right _ (List.mem_singleton_self t))] at hfails
      cases hfails

/-- The target is made: it was up to date, or its recipe has worked. -/
theorem Sound.concat {m : Progress α} (h : Sound needs upToDate works m) (hok : m.ok = true)
    {t : α} (ht : t ∉ m.made) (hneeds : ∀ n ∈ needs t, n ∈ m.made)
    (hdone : upToDate t = true ∨ works t = true) :
    Sound needs upToDate works
      ⟨m.ok, m.made ++ [t], if upToDate t then m.runs else m.runs ++ [t]⟩ where
  ordered := h.ordered.concat hneeds
  once := List.nodup_append.2 ⟨h.once, List.nodup_singleton t, fun a ha b hb hab =>
    ht (List.mem_singleton.1 hb ▸ hab ▸ ha)⟩
  runs := by
    refine .inl ⟨?_, hok⟩
    rw [List.filter_append, ← h.runs_of_ok hok]
    cases hup : upToDate t <;> simp [hup]
  honest t' ht' := by
    rcases List.mem_append.1 ht' with hold | hnew
    · exact h.honest t' hold
    · rw [List.mem_singleton.1 hnew]
      exact hdone

/-- **The recipe** of a target whose needs are made. -/
theorem Sound.recipe {m : Progress α} (h : Sound needs upToDate works m) (hok : m.ok = true)
    {t : α} (ht : t ∉ m.made) (hneeds : ∀ n ∈ needs t, n ∈ m.made) :
    Goes needs upToDate works [t] m (recipe upToDate works t m) := by
  have hself : Needed needs [t] t := ⟨t, List.mem_singleton_self t, .refl⟩
  rw [Making.recipe]
  by_cases hup : upToDate t = true
  · rw [if_pos hup]
    refine ⟨?_, List.prefix_append _ _, fun _ t' ht' => List.mem_append_right _ ht', ?_⟩
    · simpa only [if_pos hup] using h.concat hok ht hneeds (.inl hup)
    · intro t' ht'
      simp only [List.mem_append, List.mem_singleton] at ht' ⊢
      rcases ht' with (hold | rfl) | hruns
      · exact .inl (.inl hold)
      · exact .inr hself
      · exact .inl (.inr hruns)
  rw [if_neg hup]
  by_cases hworks : works t = true
  · rw [if_pos hworks]
    refine ⟨?_, List.prefix_append _ _, fun _ t' ht' => List.mem_append_right _ ht', ?_⟩
    · simpa only [if_neg hup] using h.concat hok ht hneeds (.inr hworks)
    · intro t' ht'
      simp only [List.mem_append, List.mem_singleton] at ht' ⊢
      rcases ht' with (hold | rfl) | (hruns | rfl)
      · exact .inl (.inl hold)
      · exact .inr hself
      · exact .inl (.inr hruns)
      · exact .inr hself
  · rw [if_neg hworks]
    refine ⟨⟨h.ordered, h.once, .inr ⟨rfl, t, ?_, ?_, ?_, ht, hneeds⟩, h.honest⟩,
      List.prefix_rfl, nofun, ?_⟩
    · rw [h.runs_of_ok hok]
    · simpa using hup
    · simpa using hworks
    · intro t' ht'
      simp only [List.mem_append, List.mem_singleton] at ht' ⊢
      rcases ht' with hold | (hruns | rfl)
      · exact .inl (.inl hold)
      · exact .inl (.inr hruns)
      · exact .inr hself

/-- **One target after another**, where every single one is made as it should. -/
theorem makeAll_goes {one : α → Progress α → Progress α} {goals : List α}
    (hone : ∀ t ∈ goals, ∀ m, Sound needs upToDate works m → m.ok = true →
      Goes needs upToDate works [t] m (one t m)) {m : Progress α}
    (h : Sound needs upToDate works m) (hok : m.ok = true) :
    Goes needs upToDate works goals m (makeAll one goals m) := by
  induction goals generalizing m with
  | nil => exact ⟨h, List.prefix_rfl, fun _ => nofun, fun t ht => .inl ht⟩
  | cons t ts ih =>
    have hfirst := hone t List.mem_cons_self m h hok
    have hneeded : ∀ t' ∈ (one t m).made ++ (one t m).runs,
        t' ∈ m.made ++ m.runs ∨ Needed needs (t :: ts) t' := fun t' ht' =>
      (hfirst.needed t' ht').imp_right (·.mono (by simp))
    rw [makeAll]
    by_cases hgoes : (one t m).ok = true
    · rw [if_pos hgoes]
      have hrest := ih (fun t' ht' => hone t' (List.mem_cons_of_mem _ ht')) hfirst.sound hgoes
      refine ⟨hrest.sound, hfirst.made.trans hrest.made, fun hdone t' ht' => ?_, fun t' ht' => ?_⟩
      · rcases List.mem_cons.1 ht' with rfl | htail
        · exact hrest.made.subset (hfirst.reached hgoes t' (List.mem_singleton_self t'))
        · exact hrest.reached hdone t' htail
      · rcases hrest.needed t' ht' with hbefore | hlater
        · exact hneeded t' hbefore
        · exact .inr (hlater.mono (List.subset_cons_self t ts))
    · rw [if_neg hgoes]
      exact ⟨hfirst.sound, hfirst.made, fun hdone => absurd hdone hgoes, hneeded⟩

variable [DecidableEq α]

/-- **One target**, where the rank falls from a target to what it needs. -/
theorem makeOne_goes {rank : α → ℕ} (hrank : ∀ t, ∀ n ∈ needs t, rank n < rank t) {fuel : ℕ}
    {t : α} (hfuel : rank t < fuel) {m : Progress α} (h : Sound needs upToDate works m)
    (hok : m.ok = true) :
    Goes needs upToDate works [t] m (makeOne needs upToDate works fuel t m) := by
  induction fuel generalizing t m with
  | zero => cases hfuel
  | succ fuel ih =>
    rw [makeOne]
    by_cases hmade : t ∈ m.made
    · rw [if_pos hmade]
      exact ⟨h, List.prefix_rfl, fun _ t' ht' => List.mem_singleton.1 ht' ▸ hmade,
        fun t' ht' => .inl ht'⟩
    rw [if_neg hmade]
    have hneeds : Goes needs upToDate works (needs t) m
        (makeAll (makeOne needs upToDate works fuel) (needs t) m) :=
      makeAll_goes (fun n hn m' h' hok' =>
        ih (Nat.lt_of_lt_of_le (hrank t n hn) (Nat.le_of_lt_succ hfuel)) h' hok') h hok
    generalize makeAll (makeOne needs upToDate works fuel) (needs t) m = m' at hneeds
    have hneeded : ∀ t' ∈ m'.made ++ m'.runs, t' ∈ m.made ++ m.runs ∨ Needed needs [t] t' :=
      fun t' ht' => (hneeds.needed t' ht').imp_right .of_needs
    dsimp only
    by_cases hgoes : m'.ok = true
    · rw [if_pos hgoes]
      -- What was looked at for the needs is below the target.
      have hfresh : t ∉ m'.made := by
        intro ht
        rcases hneeds.needed t (List.mem_append_left _ ht) with hold | hbelow
        · rcases List.mem_append.1 hold with hold | hrun
          · exact hmade hold
          · rw [h.runs_of_ok hok] at hrun
            exact hmade (List.mem_of_mem_filter hrun)
        · obtain ⟨n, hn, hle⟩ := hbelow.rank_le hrank
          exact absurd (hrank t n hn) (Nat.not_lt.2 hle)
      have hrecipe := hneeds.sound.recipe hgoes hfresh (hneeds.reached hgoes)
      refine ⟨hrecipe.sound, hneeds.made.trans hrecipe.made, hrecipe.reached, fun t' ht' => ?_⟩
      exact (hrecipe.needed t' ht').elim (hneeded t') .inr
    · rw [if_neg hgoes]
      exact ⟨hneeds.sound, hneeds.made, fun hdone => absurd hdone hgoes, hneeded⟩

/-- **A run of `make`.** -/
theorem make_spec {rank : α → ℕ} (hrank : ∀ t, ∀ n ∈ needs t, rank n < rank t) {fuel : ℕ}
    {goals : List α} (hfuel : ∀ t ∈ goals, rank t < fuel) :
    Goes needs upToDate works goals .start (make needs upToDate works fuel goals) :=
  makeAll_goes (fun _ ht _ => makeOne_goes hrank (hfuel _ ht)) sound_start rfl

end Making
