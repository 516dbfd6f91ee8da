import PhpWasm.Socket.PollWakeUp

/-!
# A poll resumes its caller once

Every run of `wasm_poll_socket`, in every order of the events, the timers and the continuation of
the race.

* `Race.Inv` and `PollState.Inv` are what holds whenever a step begins; `inv_step` is the step and
  `inv_wasmPoll` the start.
* `otherPart_step`: a poll does nothing to the listeners of others.
* `step_resumes`: a step resumes the caller, or it begins no `wakeUp`.  With the invariant there is
  no second resumption (`step_of_resumed`).
* `pollResumes` puts them together.
-/

set_option autoImplicit false

namespace PhpWasm.Socket

open Machine

/-! ## The listeners of the call -/

@[simp] theorem isOwn_eq_not (h : Handler) : h.isOwn = !h.isOther := rfl

theorem mem_register {polls : List Entry} {l : Emitter.Listener EventKey Handler} :
    l ∈ register polls ↔ ∃ x ∈ polls.zipIdx, Entry.listener x = some l := List.mem_filterMap

/-- The listener of an entry has the entry's index. -/
theorem listener_handler {x : Entry × Nat} {l : Emitter.Listener EventKey Handler}
    (h : Entry.listener x = some l) : l.handler = .own x.2 := by
  match x, h with
  | (.promise (.event ws name), i), h => cases h; rfl

theorem register_isOwn {polls : List Entry} : ∀ l ∈ register polls, l.handler.isOwn := by
  intro l hl
  obtain ⟨x, -, hx⟩ := mem_register.1 hl
  rw [listener_handler hx]
  rfl

/-- Each listener of the call is a function of its own. -/
theorem register_nodup (polls : List Entry) :
    ((register polls).map Emitter.Listener.handler).Nodup := by
  have hsnd : polls.zipIdx.Pairwise fun x y => x.2 ≠ y.2 := by
    rw [← List.pairwise_map, List.zipIdx_map_snd]
    exact List.nodup_range'
  rw [List.nodup_iff_pairwise_ne, List.pairwise_map, register, List.pairwise_filterMap]
  refine hsnd.imp fun {x y} hxy l hl l' hl' heq => hxy ?_
  rw [listener_handler hl, listener_handler hl'] at heq
  exact Handler.own.inj heq

/-- Entries with one index are one entry. -/
theorem register_event {polls : List Entry} {x : Entry × Nat} (hx : x ∈ polls.zipIdx)
    {l l' : Emitter.Listener EventKey Handler} (hl : Entry.listener x = some l)
    (hl' : l' ∈ register polls) (h : l'.handler = l.handler) : l'.event = l.event := by
  obtain ⟨y, hy, hyl⟩ := mem_register.1 hl'
  have hidx : y.2 = x.2 := by
    rw [listener_handler hyl, listener_handler hl] at h
    exact Handler.own.inj h
  have hentry : y.1 = x.1 := by
    rw [List.mem_zipIdx_iff_getElem?] at hx hy
    rw [hidx, hx] at hy
    exact (Option.some.inj hy).symm
  have heq : l' = l := by
    rw [show y = x from Prod.ext hentry hidx, hl] at hyl
    exact (Option.some.inj hyl).symm
  rw [heq]

/-! ## What `clearPolling` does -/

/-- The variables that clearing leaves alone. -/
def Race.SameButCleared (r r' : Race) : Prop :=
  ∃ interrupted resolves, (r.interrupted → interrupted = true) ∧
    r' = { r with interrupted := interrupted, resolves := resolves }

/-- What clearing may do: take listeners of the call off and tell the loop to stop. -/
structure Clears (s s' : Listeners × Race) : Prop where
  others : Emitter.part Handler.isOther s'.1 = Emitter.part Handler.isOther s.1
  own : (Emitter.part Handler.isOwn s'.1).Sublist (Emitter.part Handler.isOwn s.1)
  same : s.2.SameButCleared s'.2

theorem Clears.refl (s : Listeners × Race) : Clears s s := ⟨rfl, .refl _, ⟨_, _, id, rfl⟩⟩

theorem Clears.trans {s s' s'' : Listeners × Race} (h : Clears s s') (h' : Clears s' s'') :
    Clears s s'' := by
  refine ⟨h'.others.trans h.others, h'.own.trans h.own, ?_⟩
  obtain ⟨b, n, hb, heq⟩ := h.same
  obtain ⟨b', n', hb', heq'⟩ := h'.same
  rw [heq] at hb' heq'
  exact ⟨b', n', fun h => hb' (hb h), heq'⟩

theorem Clears.interrupted {s s' : Listeners × Race} (h : Clears s s')
    (hs : s.2.interrupted = true) : s'.2.interrupted = true := by
  obtain ⟨b, n, hb, heq⟩ := h.same
  rw [heq]
  exact hb hs

theorem clears_clear (s : Listeners × Race) (x : Entry × Nat) : Clears s (Entry.clear s x) := by
  match x with
  | (.promise .resolved, i) => exact .refl s
  | (.stream first, i) => exact ⟨rfl, .refl _, ⟨_, _, fun _ => rfl, rfl⟩⟩
  | (.promise (.event ws name), i) =>
    refine ⟨Emitter.part_removeListener_of_not rfl, ?_, ⟨_, _, id, rfl⟩⟩
    rw [Entry.clear, Emitter.part_removeListener rfl]
    exact Emitter.removeListener_sublist

theorem clears_foldl (l : List (Entry × Nat)) (s : Listeners × Race) :
    Clears s (l.foldl Entry.clear s) := by
  induction l generalizing s with
  | nil => exact .refl s
  | cons x l ih => exact (clears_clear s x).trans (ih (Entry.clear s x))

section

variable {polls : List Entry} {s : Listeners × Race}

/-- The listener of the promise is gone. -/
theorem clear_gone {x : Entry × Nat} (hx : x ∈ polls.zipIdx)
    (hs : (Emitter.part Handler.isOwn s.1).Sublist (register polls))
    {l : Emitter.Listener EventKey Handler} (hl : Entry.listener x = some l) :
    ∀ l' ∈ Emitter.part Handler.isOwn (Entry.clear s x).1, l'.handler ≠ l.handler := by
  match x, hl with
  | (.promise (.event ws name), i), hl =>
    cases hl
    intro l' hl'
    rw [Entry.clear, Emitter.part_removeListener rfl] at hl'
    refine Emitter.removeListener_gone ?_ ?_ l' hl'
    · exact (hs.map Emitter.Listener.handler).nodup (register_nodup polls)
    · intro m hm hmi
      exact register_event hx rfl (hs.subset hm) hmi

/-- The listeners of all of them are gone. -/
theorem foldl_clear_gone (l : List (Entry × Nat)) (hl : ∀ x ∈ l, x ∈ polls.zipIdx)
    (hs : (Emitter.part Handler.isOwn s.1).Sublist (register polls)) :
    ∀ x ∈ l, ∀ m, Entry.listener x = some m →
      ∀ m' ∈ Emitter.part Handler.isOwn (l.foldl Entry.clear s).1, m'.handler ≠ m.handler := by
  induction l generalizing s with
  | nil => exact nofun
  | cons x l ih =>
    have hown := (clears_clear s x).own
    intro y hy m hm m' hm'
    rcases List.mem_cons.1 hy with rfl | hy
    · -- what the first `clear` has removed does not come back
      exact clear_gone (hl y List.mem_cons_self) hs hm m'
        ((clears_foldl l (Entry.clear s y)).own.subset hm')
    · exact ih (fun y hy => hl y (List.mem_cons_of_mem x hy)) (hown.trans hs) y hy m hm m' hm'

/-- The polling loop among them is told to stop. -/
theorem foldl_clear_interrupted (l : List (Entry × Nat)) {first : Look} {i : Nat}
    (h : (.stream first, i) ∈ l) : (l.foldl Entry.clear s).2.interrupted = true := by
  induction l generalizing s with
  | nil => cases h
  | cons x l ih =>
    rcases List.mem_cons.1 h with rfl | h
    · exact (clears_foldl l _).interrupted rfl
    · exact ih h

end

/-- **After `clearPolling`** the listeners of the call are gone and those of the others are as they
were, and the polling loop is told to stop. -/
theorem clearPolling_facts (listeners : Listeners) (r : Race)
    (hs : (Emitter.part Handler.isOwn listeners).Sublist (register r.polls)) :
    Emitter.part Handler.isOther (clearPolling listeners r).1 =
        Emitter.part Handler.isOther listeners ∧
      Emitter.part Handler.isOwn (clearPolling listeners r).1 = [] ∧
      Race.SameButCleared r (clearPolling listeners r).2 ∧
      ((∃ first, .stream first ∈ r.polls) → (clearPolling listeners r).2.interrupted = true) := by
  have hclears := clears_foldl r.polls.zipIdx (listeners, r)
  refine ⟨hclears.others, ?_, hclears.same, ?_⟩
  · refine List.eq_nil_iff_forall_not_mem.2 fun m hm => ?_
    obtain ⟨x, hx, hxm⟩ := mem_register.1 ((hclears.own.trans hs).subset hm)
    exact foldl_clear_gone (s := (listeners, r)) r.polls.zipIdx (fun _ => id) hs x hx m hxm m hm rfl
  · rintro ⟨first, hfirst⟩
    obtain ⟨i, hi⟩ := List.getElem?_of_mem hfirst
    exact foldl_clear_interrupted r.polls.zipIdx (List.mem_zipIdx_iff_getElem?.2 hi)

/-! ## The invariant -/

/-- What holds of a race whenever a step begins. -/
structure Race.Inv (r : Race) (timeout : Int) (s : PollState) : Prop where
  /-- `awaken` says that `wakeUp` was called. -/
  wakeUps : s.wakeUps.length = if r.awaken then 1 else 0
  rest : r.awaken = false → r.rest = none
  armed : r.awaken = false → r.timer = decide (timeout ≠ -1)
  /-- The timeout has fired if it is what calls `wakeUp`. -/
  fired : r.rest = some .timeout → r.timer = false
  own : (Emitter.part Handler.isOwn s.listeners).Sublist (register r.polls)
  loop : r.sleeping → ∃ first, .stream first ∈ r.polls
  /-- Once the callback has come to its end, nothing is left. -/
  ended : r.awaken → r.rest = none →
    Emitter.part Handler.isOwn s.listeners = [] ∧ r.timer = false ∧
      (r.sleeping → r.interrupted = true)

/-- What holds of a poll whenever a step begins. -/
def PollState.Inv (timeout : Int) (s : PollState) : Prop :=
  match s.branch with
  | .over => Emitter.part Handler.isOwn s.listeners = [] ∧ s.wakeUps.length ≤ 1 ∧
      (0 ≤ timeout → s.wakeUps.length = 1)
  | .timer _ => Emitter.part Handler.isOwn s.listeners = [] ∧ s.wakeUps = []
  | .race r => r.Inv timeout s

/-- Settling a race only ever queues its continuation. -/
theorem Race.settle_eq (r : Race) : ∃ c, r.settle = { r with continuation := c } := by
  rw [Race.settle]
  split
  · exact ⟨.queued, rfl⟩
  · exact ⟨r.continuation, rfl⟩

theorem Race.Inv.settle {r : Race} {timeout : Int} {s : PollState} (h : r.Inv timeout s) :
    r.settle.Inv timeout s := by
  obtain ⟨c, hc⟩ := r.settle_eq
  rw [hc]
  exact ⟨h.wakeUps, h.rest, h.armed, h.fired, h.own, h.loop, h.ended⟩

/-- The invariant is about the listeners and the resumptions alone. -/
theorem Race.Inv.congr {r : Race} {timeout : Int} {s s' : PollState} (h : r.Inv timeout s)
    (hw : s'.wakeUps = s.wakeUps) (hl : s'.listeners = s.listeners) : r.Inv timeout s' := by
  refine ⟨?_, h.rest, h.armed, h.fired, ?_, h.loop, ?_⟩
  · rw [hw]
    exact h.wakeUps
  · rw [hl]
    exact h.own
  · rw [hl]
    exact h.ended

theorem ownPart_outside (t : Listeners) (o : Emitter.Op EventKey Nat) :
    (Emitter.part Handler.isOwn ((o.map Handler.other).apply t)).Sublist
      (Emitter.part Handler.isOwn t) := by
  refine Emitter.part_apply_sublist _ fun h hh => ?_
  cases o <;> cases hh <;> rfl

theorem otherPart_outside (t : Listeners) (o : Emitter.Op EventKey Nat) :
    Emitter.part Handler.isOther ((o.map Handler.other).apply t) =
      (o.map Handler.other).apply (Emitter.part Handler.isOther t) := by
  refine Emitter.part_apply _ fun h hh => ?_
  cases o <;> cases hh <;> rfl

namespace PollState

variable {s : PollState} {timeout : Int} {r : Race}

/-- A callback runs in a race, while no other one does. -/
theorem callback_cases (s : PollState) (f : Race → PollState) :
    s.callback f = s ∨ ∃ r, s.branch = .race r ∧ r.rest = none ∧ s.callback f = f r := by
  rw [callback]
  split
  · rename_i r hr
    by_cases hrest : r.rest = none
    · exact Or.inr ⟨r, hr, hrest, if_pos hrest⟩
    · exact Or.inl (if_neg hrest)
  · exact Or.inl rfl

theorem inv_race (hr : s.branch = .race r) (h : s.Inv timeout) : r.Inv timeout s := by
  rwa [Inv, hr] at h

theorem inv_outside (h : s.Inv timeout) (o : Emitter.Op EventKey Nat) :
    (s.outside o).Inv timeout := by
  have hown := ownPart_outside s.listeners o
  match hb : s.branch with
  | .over =>
    rw [Inv, hb] at h
    simp only [Inv, outside, hb]
    exact ⟨List.sublist_nil.1 (h.1 ▸ hown), h.2⟩
  | .timer v =>
    rw [Inv, hb] at h
    simp only [Inv, outside, hb]
    exact ⟨List.sublist_nil.1 (h.1 ▸ hown), h.2⟩
  | .race r =>
    have hr := inv_race hb h
    have hr' : r.Inv timeout (s.outside o) := by
      refine ⟨hr.wakeUps, hr.rest, hr.armed, hr.fired, hown.trans hr.own, hr.loop, ?_⟩
      intro hawaken hrest
      obtain ⟨hnil, hleft⟩ := hr.ended hawaken hrest
      exact ⟨List.sublist_nil.1 (hnil ▸ hown), hleft⟩
    have hbranch : (s.outside o).branch = .race r ∨ (s.outside o).branch = .race r.settle := by
      simp only [outside, hb]
      split
      · split <;> simp_all
      · simp_all
    rcases hbranch with hbranch | hbranch
    · rwa [Inv, hbranch]
    · rw [Inv, hbranch]
      exact hr'.settle

theorem inv_continuation (hr : r.Inv timeout s) (hs : s.branch = .race r) :
    (s.continuation r).Inv timeout := by
  rw [continuation]
  split
  · split
    · rename_i _ hawaken
      have hlen : s.wakeUps.length = 0 := by rw [hr.wakeUps]; simp_all
      refine ⟨by simp [hlen], nofun, nofun, nofun, hr.own, hr.loop, nofun⟩
    · exact ⟨hr.wakeUps, hr.rest, hr.armed, hr.fired, hr.own, hr.loop, hr.ended⟩
  · rwa [Inv, hs]

theorem inv_timeout (hr : r.Inv timeout s) (hs : s.branch = .race r) :
    (s.timeout r).Inv timeout := by
  rw [PollState.timeout]
  split
  · split
    · rename_i _ hawaken
      have hlen : s.wakeUps.length = 0 := by rw [hr.wakeUps]; simp_all
      refine ⟨by simp [hlen], nofun, nofun, fun _ => rfl, hr.own, hr.loop, nofun⟩
    · rename_i _ hawaken
      refine ⟨hr.wakeUps, hr.rest, fun h => absurd h (by simpa using hawaken), fun _ => rfl, hr.own,
        hr.loop, fun h h' => ?_⟩
      obtain ⟨hnil, -, hloop⟩ := hr.ended h h'
      exact ⟨hnil, rfl, hloop⟩
  · rwa [Inv, hs]

theorem inv_finish (hr : r.Inv timeout s) {resumer : Resumer} (hrest : r.rest = some resumer) :
    (s.finish r resumer).Inv timeout := by
  have hawaken : r.awaken = true := by
    cases h : r.awaken with
    | true => rfl
    | false => rw [hr.rest h] at hrest; cases hrest
  have htimer : (r.timer && decide (resumer ≠ .continuation)) = false := by
    cases resumer with
    | continuation => simp
    | timeout => rw [hr.fired hrest]; rfl
  obtain ⟨-, hown, ⟨b, n, -, hsame⟩, hstop⟩ := clearPolling_facts s.listeners
    { r with timer := r.timer && resumer ≠ .continuation, rest := none } hr.own
  simp only [finish, Inv]
  rw [hsame] at hstop ⊢
  refine ⟨hr.wakeUps, fun _ => rfl, fun h => absurd h (by simp [hawaken]), nofun, ?_, hr.loop, ?_⟩
  · rw [hown]
    exact List.nil_sublist _
  · exact fun _ _ => ⟨hown, htimer, fun h => hstop (hr.loop h)⟩

theorem inv_resolve (hr : r.Inv timeout s) (hs : s.branch = .race r) (i : Nat) :
    (s.resolve r i).Inv timeout := by
  rw [resolve]
  split
  · have hr' : Race.Inv { r with resolves := r.resolves.erase i } timeout s :=
      ⟨hr.wakeUps, hr.rest, hr.armed, hr.fired, hr.own, hr.loop, hr.ended⟩
    exact hr'.settle.congr rfl rfl
  · rwa [Inv, hs]

theorem inv_turn (hr : r.Inv timeout s) (hs : s.branch = .race r) (look : Look) :
    (s.turn r look).Inv timeout := by
  rw [turn]
  split
  · have hr' : Race.Inv { r with sleeping := false } timeout s := by
      refine ⟨hr.wakeUps, hr.rest, hr.armed, hr.fired, hr.own, nofun, fun h h' => ?_⟩
      obtain ⟨hnil, htimer, -⟩ := hr.ended h h'
      exact ⟨hnil, htimer, nofun⟩
    exact hr'.settle.congr rfl rfl
  · rwa [Inv, hs]

theorem inv_callback (h : s.Inv timeout) {f : Race → PollState}
    (hf : ∀ r, r.Inv timeout s → s.branch = .race r → (f r).Inv timeout) :
    (s.callback f).Inv timeout := by
  rcases s.callback_cases f with heq | ⟨r, hr, -, heq⟩
  · rwa [heq]
  · rw [heq]
    exact hf r (inv_race hr h) hr

/-- **One step keeps the invariant.** -/
theorem inv_step (h : s.Inv timeout) (e : PollStep) : (s.step e).Inv timeout := by
  cases e with
  | outside o => exact inv_outside h o
  | continuation => exact inv_callback h fun r hr hs => inv_continuation hr hs
  | resolve i => exact inv_callback h fun r hr hs => inv_resolve hr hs i
  | turn look => exact inv_callback h fun r hr hs => inv_turn hr hs look
  | timeout =>
    rw [step]
    split
    · rename_i v hb
      rw [Inv, hb] at h
      exact ⟨h.1, by simp [h.2], fun _ => by simp [h.2]⟩
    · exact inv_callback h fun r hr hs => inv_timeout hr hs
  | finish =>
    rw [step]
    split
    · rename_i r hb
      match hrest : r.rest with
      | none => exact h
      | some resumer => exact inv_finish (inv_race hb h) hrest
    · exact h

/-! ## What a step does to the listeners of others and to the caller -/

theorem continuation_listeners (r : Race) : (s.continuation r).listeners = s.listeners := by
  rw [continuation]
  split
  · split <;> rfl
  · rfl

theorem timeout_listeners (r : Race) : (s.timeout r).listeners = s.listeners := by
  rw [PollState.timeout]
  split
  · split <;> rfl
  · rfl

theorem resolve_listeners (r : Race) (i : Nat) : (s.resolve r i).listeners = s.listeners := by
  rw [resolve]
  split <;> rfl

theorem turn_listeners (r : Race) (look : Look) : (s.turn r look).listeners = s.listeners := by
  rw [turn]
  split <;> rfl

theorem callback_listeners {f : Race → PollState} (hf : ∀ r, (f r).listeners = s.listeners) :
    (s.callback f).listeners = s.listeners := by
  rcases s.callback_cases f with heq | ⟨r, -, -, heq⟩ <;> simp [heq, hf]

/-- **For the others the poll is not there.** -/
theorem otherPart_step (h : s.Inv timeout) (e : PollStep) :
    Emitter.part Handler.isOther (s.step e).listeners =
      run Emitter.Op.apply (Emitter.part Handler.isOther s.listeners) e.op.toList := by
  cases e with
  | outside o => exact otherPart_outside s.listeners o
  | continuation => exact congrArg _ (callback_listeners continuation_listeners)
  | resolve i => exact congrArg _ (callback_listeners (resolve_listeners · i))
  | turn look => exact congrArg _ (callback_listeners (turn_listeners · look))
  | timeout =>
    rw [step]
    split
    · rfl
    · exact congrArg _ (callback_listeners timeout_listeners)
  | finish =>
    rw [step]
    split
    · rename_i r hb
      match hrest : r.rest with
      | none => rfl
      | some resumer =>
        exact (clearPolling_facts s.listeners
          { r with timer := r.timer && resumer ≠ .continuation, rest := none }
          (inv_race hb h).own).1
    · rfl

/-- The callback that has called `wakeUp`, while that runs. -/
def rest (s : PollState) : Option Resumer :=
  match s.branch with
  | .race r => r.rest
  | _ => none

/-- A timer that may resume the caller when the timeout is over. -/
def timeoutPending (s : PollState) : Bool :=
  match s.branch with
  | .over => false
  | .timer _ => true
  | .race r => r.timer

/-- The polling loop goes on. -/
def sleeping (s : PollState) : Bool :=
  match s.branch with
  | .race r => r.sleeping
  | _ => false

theorem wakeUps_length_le (h : s.Inv timeout) : s.wakeUps.length ≤ 1 := by
  match hb : s.branch with
  | .over => rw [Inv, hb] at h; exact h.2.1
  | .timer v => rw [Inv, hb] at h; simp [h.2]
  | .race r =>
    rw [(inv_race hb h).wakeUps]
    split <;> decide

/-- What a step does to the caller: it resumes it, or it does not and no `wakeUp` begins to run. -/
def Resumes (s s' : PollState) : Prop :=
  (∃ v, s'.wakeUps = s.wakeUps ++ [v]) ∨
    (s'.wakeUps = s.wakeUps ∧ (s.rest = none → s'.rest = none))

theorem resumes_self (s : PollState) : s.Resumes s := Or.inr ⟨rfl, id⟩

/-- A callback that only changes the race, and not the `wakeUp` that runs. -/
theorem resumes_race {s' : PollState} (hs : s.branch = .race r) (r' : Race)
    (hw : s'.wakeUps = s.wakeUps) (hs' : s'.branch = .race r') (hrest : r'.rest = r.rest) :
    s.Resumes s' := by
  refine Or.inr ⟨hw, fun h => ?_⟩
  rw [rest, hs] at h
  rw [rest, hs']
  exact hrest.trans h

theorem continuation_resumes (hs : s.branch = .race r) : s.Resumes (s.continuation r) := by
  rw [continuation]
  split
  · split
    · exact Or.inl ⟨1, rfl⟩
    · exact resumes_race hs _ rfl rfl rfl
  · exact resumes_self s

theorem timeout_resumes (hs : s.branch = .race r) : s.Resumes (s.timeout r) := by
  rw [PollState.timeout]
  split
  · split
    · exact Or.inl ⟨0, rfl⟩
    · exact resumes_race hs _ rfl rfl rfl
  · exact resumes_self s

theorem settle_rest (r : Race) : r.settle.rest = r.rest := by
  obtain ⟨c, hc⟩ := r.settle_eq
  rw [hc]

theorem settle_sleeping (r : Race) : r.settle.sleeping = r.sleeping := by
  obtain ⟨c, hc⟩ := r.settle_eq
  rw [hc]

theorem resolve_resumes (hs : s.branch = .race r) (i : Nat) : s.Resumes (s.resolve r i) := by
  rw [resolve]
  split
  · exact resumes_race hs _ rfl rfl (settle_rest _)
  · exact resumes_self s

theorem turn_resumes (hs : s.branch = .race r) (look : Look) : s.Resumes (s.turn r look) := by
  rw [turn]
  split
  · exact resumes_race hs _ rfl rfl (settle_rest _)
  · exact resumes_self s

theorem outside_resumes (s : PollState) (o : Emitter.Op EventKey Nat) :
    s.Resumes (s.outside o) := by
  match hb : s.branch with
  | .over => exact Or.inr ⟨rfl, fun _ => by simp [rest, outside, hb]⟩
  | .timer v => exact Or.inr ⟨rfl, fun _ => by simp [rest, outside, hb]⟩
  | .race r =>
    cases o with
    | emit k =>
      refine resumes_race hb (if s.heard k then r.settle else r) rfl ?_ ?_
      · simp [outside, hb]
      · split
        · exact settle_rest r
        · rfl
    | on k n => exact resumes_race hb r rfl (by simp [outside, hb]) rfl
    | once k n => exact resumes_race hb r rfl (by simp [outside, hb]) rfl
    | removeListener k n => exact resumes_race hb r rfl (by simp [outside, hb]) rfl

theorem finish_rest (r : Race) (resumer : Resumer)
    (hown : (Emitter.part Handler.isOwn s.listeners).Sublist (register r.polls)) :
    (s.finish r resumer).rest = none := by
  obtain ⟨-, -, ⟨b, n, -, hsame⟩, -⟩ := clearPolling_facts s.listeners
    { r with timer := r.timer && resumer ≠ .continuation, rest := none } hown
  simp only [finish, rest]
  rw [hsame]

theorem callback_resumes {f : Race → PollState}
    (hf : ∀ r, s.branch = .race r → s.Resumes (f r)) : s.Resumes (s.callback f) := by
  rcases s.callback_cases f with heq | ⟨r, hr, -, heq⟩
  · rw [heq]
    exact resumes_self s
  · rw [heq]
    exact hf r hr

theorem step_resumes (h : s.Inv timeout) (e : PollStep) : s.Resumes (s.step e) := by
  cases e with
  | outside o => exact outside_resumes s o
  | continuation => exact callback_resumes fun r => continuation_resumes
  | resolve i => exact callback_resumes fun r hs => resolve_resumes hs i
  | turn look => exact callback_resumes fun r hs => turn_resumes hs look
  | timeout =>
    rw [step]
    split
    · exact Or.inl ⟨_, rfl⟩
    · exact callback_resumes fun r => timeout_resumes
  | finish =>
    rw [step]
    split
    · rename_i r hb
      match hrest : r.rest with
      | none => exact resumes_self s
      | some resumer => exact Or.inr ⟨rfl, fun _ => finish_rest r resumer (inv_race hb h).own⟩
    · exact resumes_self s

/-- **A caller that has been resumed is left alone.** -/
theorem step_of_resumed (h : s.Inv timeout) (hw : s.wakeUps ≠ []) (hrest : s.rest = none)
    (e : PollStep) : (s.step e).wakeUps = s.wakeUps ∧ (s.step e).rest = none := by
  rcases step_resumes h e with ⟨v, hv⟩ | ⟨heq, hrest'⟩
  · -- a second resumption
    have hlen := wakeUps_length_le (inv_step h e)
    rw [hv, List.length_append, List.length_singleton] at hlen
    exact absurd (List.length_eq_zero_iff.1 (by omega)) hw
  · exact ⟨heq, hrest' hrest⟩

/-- A caller that has been resumed stays so. -/
theorem wakeUps_step (h : s.Inv timeout) (hw : s.wakeUps ≠ []) (e : PollStep) :
    (s.step e).wakeUps ≠ [] := by
  rcases step_resumes h e with ⟨v, hv⟩ | ⟨heq, -⟩
  · rw [hv]
    exact List.append_ne_nil_of_right_ne_nil _ (List.cons_ne_nil v [])
  · rwa [heq]

theorem awaken_of_waiting (hr : r.Inv timeout s) (hw : s.wakeUps = []) : r.awaken = false := by
  cases ha : r.awaken with
  | false => rfl
  | true =>
    have hlen := hr.wakeUps
    rw [hw, ha] at hlen
    cases hlen

theorem awaken_of_wakeUps (hr : r.Inv timeout s) (hw : s.wakeUps ≠ []) : r.awaken = true := by
  cases ha : r.awaken with
  | true => rfl
  | false =>
    have hlen := hr.wakeUps
    rw [ha] at hlen
    exact absurd (List.length_eq_zero_iff.1 hlen) hw

/-- **Until the caller is resumed its timer is pending**, unless there is none. -/
theorem timeoutPending_of_waiting (h : s.Inv timeout) (ht : 0 ≤ timeout) (hw : s.wakeUps = []) :
    s.timeoutPending = true := by
  match hb : s.branch with
  | .over =>
    rw [Inv, hb] at h
    exact absurd (h.2.2 ht) (by simp [hw])
  | .timer v => simp [timeoutPending, hb]
  | .race r =>
    have hr := inv_race hb h
    have hawaken := awaken_of_waiting hr hw
    rw [timeoutPending, hb]
    exact (hr.armed hawaken).trans (decide_eq_true (by omega))

/-- **The timeout resumes the caller.** -/
theorem wakeUps_timeout (h : s.Inv timeout) (ht : 0 ≤ timeout) :
    (s.step .timeout).wakeUps ≠ [] := by
  by_cases hw : s.wakeUps = []
  · have hpending := timeoutPending_of_waiting h ht hw
    match hb : s.branch with
    | .over => rw [timeoutPending, hb] at hpending; cases hpending
    | .timer v => simp [step, hb]
    | .race r =>
      have hr := inv_race hb h
      have hawaken := awaken_of_waiting hr hw
      rw [timeoutPending, hb] at hpending
      simp [step, hb, callback, hr.rest hawaken, PollState.timeout, hpending, hawaken]
  · exact wakeUps_step h hw .timeout

end PollState

/-! ## The call -/

theorem ofOthers_isOther {t : Emitter.Table EventKey Nat} :
    ∀ l ∈ ofOthers t, l.handler.isOther := by
  intro l hl
  obtain ⟨m, -, rfl⟩ := List.mem_map.1 hl
  rfl

theorem ownPart_ofOthers (t : Emitter.Table EventKey Nat) :
    Emitter.part Handler.isOwn (ofOthers t) = [] :=
  Emitter.part_of_forall_not fun l hl => by rw [isOwn_eq_not, ofOthers_isOther l hl]; rfl

theorem otherPart_ofOthers (t : Emitter.Table EventKey Nat) :
    Emitter.part Handler.isOther (ofOthers t) = ofOthers t :=
  Emitter.part_of_forall ofOthers_isOther

theorem ownPart_register (polls : List Entry) :
    Emitter.part Handler.isOwn (register polls) = register polls :=
  Emitter.part_of_forall register_isOwn

theorem otherPart_register (polls : List Entry) :
    Emitter.part Handler.isOther (register polls) = [] :=
  Emitter.part_of_forall_not fun l hl => by simpa using register_isOwn l hl

/-- Only a poll without a timeout is never answered. -/
theorem timeout_of_never {d : Descriptor} {events : BitVec 32} {timeout : Int}
    (h : arrange events timeout d = .never) : timeout = -1 := by
  match d with
  | .socket (some sock) =>
    rw [arrange, arrangeSocket] at h
    by_cases ht : timeout = -1
    · exact ht
    · simp only [ne_eq, ht, not_false_eq_true, if_true] at h
      split at h
      · cases h
      · split at h
        · cases h
        · split at h
          · split at h <;> cases h
          · split at h <;> cases h

theorem timer_of_race {d : Descriptor} {events : BitVec 32} {timeout : Int} {polls : List Entry}
    {timer : Bool} (h : arrange events timeout d = .race polls timer) :
    timer = decide (timeout ≠ -1) := by
  match d with
  | .pollable first => cases h; rfl
  | .socket (some sock) =>
    rw [arrange, arrangeSocket] at h
    dsimp only at h
    split at h
    · cases h
    · split at h
      · cases h
      · split at h
        · split at h
          · cases h
          · split at h <;> cases h
        · split at h
          · cases h
          · cases h; rfl

/-- **The call establishes the invariant.** -/
theorem inv_wasmPoll (d : Descriptor) (events : BitVec 32) (timeout : Int)
    (t : Emitter.Table EventKey Nat) : (wasmPoll d events timeout t).Inv timeout := by
  rw [wasmPoll]
  split
  · exact ⟨ownPart_ofOthers t, Nat.le_refl 1, fun _ => rfl⟩
  · exact ⟨ownPart_ofOthers t, rfl⟩
  · rename_i h
    refine ⟨ownPart_ofOthers t, Nat.zero_le 1, fun ht => ?_⟩
    rw [timeout_of_never h] at ht
    exact absurd ht (by decide)
  · rename_i polls timer h
    refine ⟨rfl, fun _ => rfl, fun _ => timer_of_race h, nofun, ?_, fun hsleep => ?_, nofun⟩
    · rw [Emitter.part_append, ownPart_ofOthers, ownPart_register]
      exact List.Sublist.refl _
    · obtain ⟨x, hx, hxs⟩ := List.any_eq_true.1 hsleep
      match x, hx, hxs with
      | .stream first, hx, _ => exact ⟨first, hx⟩

/-- The listeners of others are still there when the call has returned. -/
theorem otherPart_wasmPoll (d : Descriptor) (events : BitVec 32) (timeout : Int)
    (t : Emitter.Table EventKey Nat) :
    Emitter.part Handler.isOther (wasmPoll d events timeout t).listeners = ofOthers t := by
  rw [wasmPoll]
  split
  · exact otherPart_ofOthers t
  · exact otherPart_ofOthers t
  · exact otherPart_ofOthers t
  · rw [Emitter.part_append, otherPart_ofOthers, otherPart_register, List.append_nil]

/-! ## Whole runs -/

section

variable {s : PollState} {timeout : Int}

open PollState

theorem inv_run (h : s.Inv timeout) (trace : List PollStep) :
    (run PollState.step s trace).Inv timeout :=
  run_inv_of_step (I := PollState.Inv timeout) (fun _ e hs => inv_step hs e) h trace

/-- **The listeners of others** after a run are what they would be without the poll. -/
theorem otherPart_run (h : s.Inv timeout) (trace : List PollStep) :
    Emitter.part Handler.isOther (run PollState.step s trace).listeners =
      run Emitter.Op.apply (Emitter.part Handler.isOther s.listeners) (outsides trace) := by
  induction trace generalizing s with
  | nil => rfl
  | cons e es ih =>
    rw [run_cons, ih (inv_step h e), otherPart_step h e, ← run_append, outsides, outsides]
    congr 1
    cases hop : e.op with
    | none => rw [List.filterMap_cons_none hop]; rfl
    | some o => rw [List.filterMap_cons_some hop]; rfl

theorem run_of_resumed (h : s.Inv timeout) (hw : s.wakeUps ≠ []) (hrest : s.rest = none)
    (trace : List PollStep) : (run PollState.step s trace).wakeUps = s.wakeUps ∧
      (run PollState.step s trace).rest = none := by
  induction trace generalizing s with
  | nil => exact ⟨rfl, hrest⟩
  | cons e es ih =>
    obtain ⟨heq, hrest'⟩ := step_of_resumed h hw hrest e
    obtain ⟨heq', hrest''⟩ := ih (inv_step h e) (by rwa [heq]) hrest'
    exact ⟨heq'.trans heq, hrest''⟩

theorem run_wakeUps (h : s.Inv timeout) (hw : s.wakeUps ≠ []) (trace : List PollStep) :
    (run PollState.step s trace).wakeUps ≠ [] :=
  (run_inv_of_step (I := fun s : PollState => s.Inv timeout ∧ s.wakeUps ≠ [])
    (fun _ e hs => ⟨inv_step hs.1 e, wakeUps_step hs.1 hs.2 e⟩) ⟨h, hw⟩ trace).2

end

/-- **Nothing is left** of a poll: no listener of its own, no timer that resumes the caller, no
polling loop that goes on.  Whatever happens later, to the caller and to the listeners it happens
as if the poll had never been. -/
structure Spent (s : PollState) : Prop where
  noListener : ∀ l ∈ s.listeners, l.handler.isOther
  noTimer : s.timeoutPending = false
  loopEnds : ∀ look, (s.step (.turn look)).sleeping = false
  inert : ∀ later, (run PollState.step s later).wakeUps = s.wakeUps ∧
    (run PollState.step s later).listeners = run Emitter.Op.apply s.listeners (outsides later)

/-- The poll after a run of steps. -/
def pollAfter (d : Descriptor) (events : BitVec 32) (timeout : Int)
    (t : Emitter.Table EventKey Nat) (trace : List PollStep) : PollState :=
  run PollState.step (wasmPoll d events timeout t) trace

/-- **What is asked of a poll** that is in the state `s` after a run. -/
structure PollResumes (timeout : Int) (t : Emitter.Table EventKey Nat) (trace : List PollStep)
    (s : PollState) : Prop where
  atMostOnce : s.wakeUps.length ≤ 1
  /-- The timer is pending until the caller is resumed, and once the timeout is over it has been. -/
  exactlyOnce : 0 ≤ timeout → (s.wakeUps = [] → s.timeoutPending = true) ∧
    (.timeout ∈ trace → s.wakeUps.length = 1)
  /-- Once the callback that resumed the caller has come to its end. -/
  spent : s.wakeUps ≠ [] → Spent (s.step .finish)
  others : Emitter.part Handler.isOther s.listeners =
    run Emitter.Op.apply (ofOthers t) (outsides trace)

section

variable {s : PollState} {timeout : Int}

open PollState

/-- A table without a listener of the call is that of the others. -/
theorem otherPart_of_ownPart {listeners : Listeners}
    (h : Emitter.part Handler.isOwn listeners = []) :
    ∀ l ∈ listeners, l.handler.isOther := by
  intro l hl
  by_contra hother
  have hmem : l ∈ Emitter.part Handler.isOwn listeners :=
    Emitter.mem_part.2 ⟨hl, by simpa using hother⟩
  rw [h] at hmem
  cases hmem

/-- What the invariant says of a poll that has resumed its caller. -/
theorem ended (h : s.Inv timeout) (hw : s.wakeUps ≠ []) (hrest : s.rest = none) :
    Emitter.part Handler.isOwn s.listeners = [] ∧ s.timeoutPending = false ∧
      ∀ look, (s.step (.turn look)).sleeping = false := by
  match hb : s.branch with
  | .timer v => rw [PollState.Inv, hb] at h; exact absurd h.2 hw
  | .over =>
    rw [PollState.Inv, hb] at h
    exact ⟨h.1, by simp [timeoutPending, hb],
      fun look => by simp [step, PollState.callback, sleeping, hb]⟩
  | .race r =>
    have hr := inv_race hb h
    have hrest' : r.rest = none := by rwa [rest, hb] at hrest
    obtain ⟨hown, htimer, hloop⟩ := hr.ended (awaken_of_wakeUps hr hw) hrest'
    refine ⟨hown, by rw [timeoutPending, hb]; exact htimer, fun look => ?_⟩
    simp only [step, PollState.callback, hb, hrest', if_true, turn]
    cases hsleep : r.sleeping with
    | false => simp [sleeping, hb, hsleep]
    | true => simp [hloop hsleep, returns_interrupted, sleeping, settle_sleeping]

/-- **A poll that has resumed its caller is spent.** -/
theorem spent_of_resumed (h : s.Inv timeout) (hw : s.wakeUps ≠ []) (hrest : s.rest = none) :
    Spent s := by
  obtain ⟨hown, htimer, hloop⟩ := ended h hw hrest
  refine ⟨otherPart_of_ownPart hown, htimer, hloop, fun later => ?_⟩
  obtain ⟨hwake, hrest'⟩ := run_of_resumed h hw hrest later
  refine ⟨hwake, ?_⟩
  have hown' := (ended (inv_run h later) (by rwa [hwake]) hrest').1
  have hothers := otherPart_run h later
  rwa [Emitter.part_of_forall (otherPart_of_ownPart hown'),
    Emitter.part_of_forall (otherPart_of_ownPart hown)] at hothers

theorem finish_ends (h : s.Inv timeout) : (s.step .finish).rest = none := by
  rw [step]
  split
  · rename_i r hb
    match hrest : r.rest with
    | none => rw [Option.elim_none, rest, hb]; exact hrest
    | some resumer => exact finish_rest r resumer (inv_race hb h).own
  · rename_i hb
    rw [rest]
    split
    · rename_i r hr
      exact absurd hr (hb r)
    · rfl

end

/-- **A poll resumes its caller** at most once, exactly once if the timeout is not negative, and
leaves nothing behind: on every descriptor, for every mask and timeout, whatever listeners others
have, and in every order of what happens. -/
theorem pollResumes (d : Descriptor) (events : BitVec 32) (timeout : Int)
    (t : Emitter.Table EventKey Nat) (trace : List PollStep) :
    PollResumes timeout t trace (pollAfter d events timeout t trace) := by
  have hstart := inv_wasmPoll d events timeout t
  have h := inv_run hstart trace
  refine ⟨PollState.wakeUps_length_le h,
    fun ht => ⟨PollState.timeoutPending_of_waiting h ht, fun hmem => ?_⟩, fun hw => ?_, ?_⟩
  · -- the timeout falls somewhere in the run, and what comes after cannot undo it
    obtain ⟨before, after, rfl⟩ := List.append_of_mem hmem
    have hbefore := inv_run hstart before
    have hne := run_wakeUps (PollState.inv_step hbefore .timeout)
      (PollState.wakeUps_timeout hbefore ht) after
    have hle := PollState.wakeUps_length_le h
    rw [pollAfter, run_append, run_cons]
    rw [run_append, run_cons] at hle
    exact Nat.le_antisymm hle (List.length_pos_iff.2 hne)
  · exact spent_of_resumed (PollState.inv_step h .finish) (PollState.wakeUps_step h hw .finish)
      (finish_ends h)
  · rw [pollAfter, otherPart_run hstart, otherPart_wasmPoll]

/-- A message arrives, and the timeout is over before the continuation runs. -/
example : (pollAfter (.socket (some liveDgram)) pollIn 1000 []
    [.outside (.emit (0, .message)), .timeout, .finish, .continuation, .resolve 1]).wakeUps = [0] :=
  by decide

end PhpWasm.Socket
