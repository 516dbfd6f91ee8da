import PhpWasm.Sapi.Request

/-!
# What the callbacks of a request see

The server context is filled in before a request, read by PHP's callbacks during it and freed at
its end.  This file compares what the callbacks see with what they should: the specification is a
machine without pointers, `Values.step`, whose state is the values set for the next request, and
`Sapi.OwnValues` says that every callback of a request is answered from those values and that the
context is back at its default when the request is over.

`wasm_sapi_request_shutdown` frees the strings and the lists *before* it calls
`php_request_shutdown`, and clears the context only *after* it.  What PHP asks in between is
answered through dangling pointers, so the specification holds of a request when its late callbacks
have nothing to follow (`Callback.Touches`), and when none of its callbacks reads
`SG(request_info)` while that still holds the pointers of an earlier request
(`Callback.InfoCurrent`).  `wasm_sapi_read_post_body` goes by `content_length` and not by the length
of the body, so what a callback asks for has to be there, too (`Callback.Inside`).
`Sapi.ownValues_of_careful` carries this over a whole sequence of calls.
-/

set_option autoImplicit false

namespace PhpWasm

open Memory

variable {δ : Type*}

/-! ## The specification -/

/-- Reading values cannot fail. -/
theorem callback_some_isSome (v : ServerContext CString) (i : RequestInfo CString) (cb : Callback) :
    (callback some copyUpTo v i cb).isSome := by
  have hopt : ∀ o : Option CString, derefOpt some o = some o := by
    intro o
    cases o <;> rfl
  have hentries : ∀ l : List (Entry CString), (l.mapM (readEntry some)).isSome := by
    intro l
    induction l with
    | nil => rfl
    | cons e l ih =>
      obtain ⟨es, hes⟩ := Option.isSome_iff_exists.1 ih
      simp [hes, readEntry]
  cases cb with
  | getenv name n =>
    rw [callback, Option.isSome_map]
    induction v.envArrayEntries with
    | nil => rfl
    | cons e l ih =>
      simp only [wasmSapiGetenv, Option.bind_eq_bind, Option.bind_some]
      split
      · rfl
      · exact ih
  | readCookies => simp [callback, wasmSapiReadCookies, hopt]
  | requestInfo f => simp [callback, hopt]
  | readPostBody n r =>
    rw [callback, Option.isSome_map, wasmSapiReadPostBody]
    split
    · rfl
    · dsimp only
      split <;> rfl
  | registerServerVariables imported =>
    obtain ⟨es, hes⟩ := Option.isSome_iff_exists.1 (hentries v.serverArrayEntries)
    rw [callback, Option.isSome_map, wasmSapiRegisterServerVariables, hopt, hopt, hopt, hopt, hes]
    cases v.str .documentRoot <;> cases v.str .pathTranslated <;> rfl

/-- What a callback should answer in a request for which the values `v` were set. -/
def Callback.answer (v : ServerContext CString) (cb : Callback) : Answer :=
  (callback some copyUpTo v v.info cb).get (callback_some_isSome v v.info cb)

/-- The values set for the next request, after a call. -/
def Values.step (v : ServerContext CString) : Call δ → ServerContext CString
  | .set x => x.set v
  | .request _ => wasmInitServerContext
  | .addCliArg _ => v
  | .cli _ => v

/-! ## What a request answers -/

namespace Sapi

/-- The answer to a callback in a given state. -/
def answer (s : Sapi δ) (cb : Callback) : Option Answer :=
  callback s.mem.heap.read copyInside s.mem.context s.requestInfo cb

/-- Was `SG(request_info)` filled in? -/
def Reached (r : Request δ) (s : Sapi δ) : Prop := ¬ (s.redirect r.streams).NotRedirected

instance (r : Request δ) (s : Sapi δ) : Decidable (s.Reached r) := inferInstanceAs (Decidable (¬ _))

/-- The callbacks of a request, in order.  When the redirections fail, PHP is not started and only
the shutdown runs. -/
def callbacks (r : Request δ) (s : Sapi δ) : List Callback :=
  r.early ++ (if s.Reached r then r.during else []) ++ r.late

/-- The answers to the callbacks of a request, in order; `none` is a read of freed memory, or one
past the end of a block. -/
def answers (r : Request δ) (s : Sapi δ) : List (Option Answer) :=
  r.early.map s.answer ++
    ((if s.Reached r then r.during else []).map (s.requestInit r).2.answer ++
      r.late.map (s.requestInit r).2.destroyed.answer)

/-- The calls of a sequence, run beside the values they set. -/
abbrev stepBoth : Sapi δ × ServerContext CString → Call δ → Sapi δ × ServerContext CString :=
  Machine.both step Values.step

/-- **What is asked of a call**: each callback reads only live memory and is answered from the
values set for this very request, and afterwards the context is back at its default. -/
def OwnValues (p : Sapi δ × ServerContext CString) : Call δ → Prop
  | .request r =>
    p.1.answers r = (p.1.callbacks r).map (fun cb => some (cb.answer p.2)) ∧
      (p.1.handleRequest r).2.mem.context = wasmInitServerContext
  | .set _ => True
  | .addCliArg _ => True
  | .cli _ => True

end Sapi

/-! ## When it holds -/

/-- The callback follows a string pointer or reads a list entry that the context owns. -/
def Callback.Touches {ρ : Type*} (c : ServerContext ρ) (i : RequestInfo ρ) : Callback → Prop
  | getenv _ _ => c.envArrayEntries ≠ []
  | registerServerVariables _ =>
    c.serverArrayEntries ≠ [] ∨ (c.str .documentRoot ≠ none ∧ c.str .pathTranslated ≠ none) ∨
      c.str .requestHost ≠ none ∨ i.str .requestUri ≠ none ∨ i.str .queryString ≠ none ∨
        i.str .requestMethod ≠ none
  | readCookies => c.str .cookies ≠ none
  | readPostBody _ _ => False
  | requestInfo f => i.str f ≠ none

/-- Where the callback reads `SG(request_info)`, it finds what the context says. -/
def Callback.InfoCurrent {ρ : Type*} (c : ServerContext ρ) (i : RequestInfo ρ) : Callback → Prop
  | getenv _ _ => True
  | registerServerVariables _ =>
    i.str .requestUri = c.str .requestUri ∧ i.str .queryString = c.str .queryString ∧
      i.str .requestMethod = c.str .requestMethod
  | readCookies => True
  | readPostBody _ _ => i.contentLength = c.contentLength
  | requestInfo f => i.str f = c.str f.source

/-- What the callback copies out of the request body is there. -/
def Callback.Inside (v : ServerContext CString) : Callback → Prop
  | getenv _ _ => True
  | registerServerVariables _ => True
  | readCookies => True
  | readPostBody n r => ∀ body ∈ v.str .requestBody, 0 < postBodyCount n r v.contentLength →
      r + postBodyCount n r v.contentLength ≤ body.length
  | requestInfo _ => True

instance (v : ServerContext CString) : ∀ cb : Callback, Decidable (cb.Inside v)
  | .getenv _ _ => inferInstanceAs (Decidable True)
  | .registerServerVariables _ => inferInstanceAs (Decidable True)
  | .readCookies => inferInstanceAs (Decidable True)
  | .readPostBody _ _ => inferInstanceAs (Decidable (∀ _ ∈ v.str .requestBody, _ → _))
  | .requestInfo _ => inferInstanceAs (Decidable True)

instance {ρ : Type*} [DecidableEq ρ] (c : ServerContext ρ) (i : RequestInfo ρ) :
    ∀ cb : Callback, Decidable (cb.Touches c i)
  | .getenv _ _ => inferInstanceAs (Decidable (_ ≠ _))
  | .registerServerVariables _ =>
    inferInstanceAs (Decidable (_ ≠ _ ∨ (_ ≠ _ ∧ _ ≠ _) ∨ _ ≠ _ ∨ _ ≠ _ ∨ _ ≠ _ ∨ _ ≠ _))
  | .readCookies => inferInstanceAs (Decidable (_ ≠ _))
  | .readPostBody _ _ => inferInstanceAs (Decidable False)
  | .requestInfo _ => inferInstanceAs (Decidable (_ ≠ _))

instance {ρ : Type*} [DecidableEq ρ] (c : ServerContext ρ) (i : RequestInfo ρ) :
    ∀ cb : Callback, Decidable (cb.InfoCurrent c i)
  | .getenv _ _ => inferInstanceAs (Decidable True)
  | .registerServerVariables _ => inferInstanceAs (Decidable (_ ∧ _ ∧ _))
  | .readCookies => inferInstanceAs (Decidable True)
  | .readPostBody _ _ => inferInstanceAs (Decidable (_ = _))
  | .requestInfo _ => inferInstanceAs (Decidable (_ = _))

/-- The `SG(request_info)` the late callbacks of a request read: the one filled in for it, or the
one it found when the redirections failed. -/
def Sapi.lateInfo (r : Request δ) (s : Sapi δ) : RequestInfo Ptr :=
  if s.Reached r then s.mem.context.info else s.requestInfo

/-- The request makes no callback that asks for more of the body than there is, none that reads a
stale `SG(request_info)`, and none inside `php_request_shutdown` that needs what was freed just
before. -/
def Sapi.Careful (p : Sapi δ × ServerContext CString) : Call δ → Prop
  | .request r =>
    (∀ cb ∈ p.1.callbacks r, cb.Inside p.2) ∧
    (∀ cb ∈ r.early, cb.InfoCurrent p.1.mem.context p.1.requestInfo) ∧
      ∀ cb ∈ r.late, cb.InfoCurrent p.1.mem.context (p.1.lateInfo r) ∧
        ¬ cb.Touches p.1.mem.context (p.1.lateInfo r)
  | .set _ => True
  | .addCliArg _ => True
  | .cli _ => True

instance (p : Sapi δ × ServerContext CString) : ∀ e : Call δ, Decidable (Sapi.Careful p e)
  | .request _ => inferInstanceAs (Decidable (_ ∧ _ ∧ _))
  | .set _ => inferInstanceAs (Decidable True)
  | .addCliArg _ => inferInstanceAs (Decidable True)
  | .cli _ => inferInstanceAs (Decidable True)

/-! ## What the destruction frees -/

/-- The pointers `wasm_destroy_server_context` frees. -/
def Owned (c : ServerContext Ptr) (p : Ptr) : Prop :=
  (∃ f, f ≠ Field.requestBody ∧ c.str f = some p) ∨
    ∃ e ∈ c.serverArrayEntries ++ c.envArrayEntries, p = e.cell ∨ p = e.key ∨ p = e.value

theorem read_freeOpt_of_ne {h : Heap CString} {o : Option Ptr} {p : Ptr} (hne : o ≠ some p) :
    (h.freeOpt o).read p = h.read p := by
  cases o with
  | none => rfl
  | some q => exact Heap.read_free_of_ne h fun he => hne (congrArg some he.symm)

theorem read_foldl_freeOpt (c : ServerContext Ptr) {p : Ptr} {l : List Field}
    (hl : ∀ f ∈ l, c.str f ≠ some p) (h : Heap CString) :
    (l.foldl (fun h f => h.freeOpt (c.str f)) h).read p = h.read p := by
  induction l generalizing h with
  | nil => rfl
  | cons f l ih =>
    rw [List.foldl_cons, ih fun g hg => hl g (List.mem_cons_of_mem _ hg)]
    exact read_freeOpt_of_ne (hl f List.mem_cons_self)

theorem read_foldl_freeEntry {p : Ptr} {l : List (Entry Ptr)}
    (hl : ∀ e ∈ l, ¬ (p = e.cell ∨ p = e.key ∨ p = e.value)) (h : Heap CString) :
    (l.foldl (fun (h : Heap CString) e => ((h.free e.key).free e.value).free e.cell) h).read p =
      h.read p := by
  induction l generalizing h with
  | nil => rfl
  | cons e l ih =>
    have he := hl e List.mem_cons_self
    rw [not_or, not_or] at he
    rw [List.foldl_cons, ih fun g hg => hl g (List.mem_cons_of_mem _ hg),
      Heap.read_free_of_ne _ he.1, Heap.read_free_of_ne _ he.2.2, Heap.read_free_of_ne _ he.2.1]

/-- The destruction leaves every block alone that the context does not own. -/
theorem read_destroy {m : Mem} {p : Ptr} (h : ¬ Owned m.context p) :
    (wasmDestroyServerContext m).read p = m.heap.read p := by
  rw [Owned, not_or] at h
  have hentry : ∀ e ∈ m.context.serverArrayEntries ++ m.context.envArrayEntries,
      ¬ (p = e.cell ∨ p = e.key ∨ p = e.value) := fun e he hp => h.2 ⟨e, he, hp⟩
  rw [wasmDestroyServerContext,
    read_foldl_freeEntry fun e he => hentry e (List.mem_append_right _ he),
    read_foldl_freeEntry fun e he => hentry e (List.mem_append_left _ he)]
  refine read_foldl_freeOpt m.context (fun f hf hp => h.1 ⟨f, ?_, hp⟩) m.heap
  rintro rfl
  simp at hf

/-! ### The request body is not owned -/

/-- The buffer of the request body is none of the blocks the context owns. -/
def BodyApart (m : Mem) : Prop := ∀ p, m.context.str .requestBody = some p → ¬ Owned m.context p

theorem bodyApart_init (h : Heap CString) : BodyApart ⟨h, wasmInitServerContext⟩ :=
  fun _ hp => absurd hp (by simp [wasmInitServerContext])

/-- Everything the context owns is live. -/
theorem Mem.Holds.live_of_owned {m : Mem} {v : ServerContext CString} (h : m.Holds v) {p : Ptr}
    (hp : Owned m.context p) : m.heap.read p ≠ none := by
  have hentry : ∀ {l : List (Entry Ptr)} {l' : List (Entry CString)},
      List.Forall₂ (Entry.Rel fun p s => m.heap.read p = some s) l l' → ∀ e ∈ l,
        p = e.cell ∨ p = e.key ∨ p = e.value → m.heap.read p ≠ none := by
    intro l l' hl
    induction hl with
    | nil => intro e he; exact absurd he List.not_mem_nil
    | cons hr _ ih =>
      intro e he hpe
      rcases List.mem_cons.1 he with rfl | he
      · rcases hpe with rfl | rfl | rfl
        · simp [hr.cell]
        · simp [hr.key]
        · simp [hr.value]
      · exact ih e he hpe
  rcases hp with ⟨f, -, hf⟩ | ⟨e, he, hpe⟩
  · obtain ⟨b, -, hb⟩ := optionRel_some (hf ▸ h.str f)
    simp [hb]
  · rcases List.mem_append.1 he with he | he
    · exact hentry h.serverArrayEntries e he hpe
    · exact hentry h.envArrayEntries e he hpe

/-- The body's buffer is live, too. -/
theorem Mem.Holds.live_of_body {m : Mem} {v : ServerContext CString} (h : m.Holds v) {p : Ptr}
    (hp : m.context.str .requestBody = some p) : m.heap.read p ≠ none := by
  obtain ⟨b, -, hb⟩ := optionRel_some (hp ▸ h.str .requestBody)
  simp [hb]

/-- A block that is not live was never handed out, so it is not the next one. -/
theorem ne_strdup_of_live {m : Mem} {p : Ptr} (hp : m.heap.read p ≠ none) (s : CString) :
    p ≠ (m.strdup s).1 := by
  rintro rfl
  exact hp (m.heap.fresh _ (Nat.le_refl _))

theorem BodyApart.setString {m : Mem} {v : ServerContext CString} (h : BodyApart m)
    (hv : m.Holds v) (f : Field) (s : CString) : BodyApart (m.setString f s) := by
  intro p hp howned
  have hstr : ∀ g, g ≠ f → (m.setString f s).context.str g = m.context.str g :=
    fun g hg => Function.update_of_ne hg _ _
  have hself : (m.setString f s).context.str f = some (m.strdup s).1 := Function.update_self ..
  by_cases hf : f = .requestBody
  · -- the new body is a new block, and what is owned was live before
    subst hf
    have hpeq : p = (m.strdup s).1 := Option.some.inj (hp.symm.trans hself)
    refine ne_strdup_of_live (hv.live_of_owned ?_) s hpeq
    rcases howned with ⟨g, hg, hgp⟩ | he
    · exact Or.inl ⟨g, hg, by rwa [hstr g hg] at hgp⟩
    · exact Or.inr he
  · rw [hstr _ (Ne.symm hf)] at hp
    rcases howned with ⟨g, hg, hgp⟩ | he
    · by_cases hgf : g = f
      · subst hgf
        rw [hself] at hgp
        exact ne_strdup_of_live (hv.live_of_body hp) s (Option.some.inj hgp).symm
      · exact h p hp (Or.inl ⟨g, hg, by rwa [hstr g hgf] at hgp⟩)
    · exact h p hp (Or.inr he)

/-- The blocks of a new entry are not the body's. -/
theorem ne_newEntry_of_live {m : Mem} {p : Ptr} (hp : m.heap.read p ≠ none) (k x : CString) :
    ¬ (p = (m.newEntry k x).1.cell ∨ p = (m.newEntry k x).1.key ∨
      p = (m.newEntry k x).1.value) := by
  obtain ⟨b, hb⟩ := Option.ne_none_iff_exists'.1 hp
  have h1 := read_strdup_of_live hb []
  have h2 := read_strdup_of_live h1 k
  rintro (he | he | he)
  · exact ne_strdup_of_live hp [] he
  · exact ne_strdup_of_live (by rw [h1]; simp) k he
  · exact ne_strdup_of_live (by rw [h2]; simp) x he

/-- The setters keep the body apart. -/
theorem BodyApart.apply {m : Mem} {v : ServerContext CString} (h : BodyApart m) (hv : m.Holds v)
    (s : Setter) : BodyApart (s.apply m) := by
  -- adding an entry: the body's buffer is live, so it is none of the new blocks
  have hadd : ∀ (k x : CString) (c : ServerContext Ptr), c.str = m.context.str →
      (∀ e ∈ c.serverArrayEntries ++ c.envArrayEntries, e = (m.newEntry k x).1 ∨
        e ∈ m.context.serverArrayEntries ++ m.context.envArrayEntries) →
      ∀ hp, BodyApart ⟨hp, c⟩ := by
    intro k x c hc he _ p hp howned
    rw [show (⟨_, c⟩ : Mem).context.str = m.context.str from hc] at hp
    rcases howned with ⟨g, hg, hgp⟩ | ⟨e, hmem, hpe⟩
    · exact h p hp (Or.inl ⟨g, hg, by rwa [← hc]⟩)
    · rcases he e hmem with rfl | hold
      · exact ne_newEntry_of_live (hv.live_of_body hp) k x hpe
      · exact h p hp (Or.inr ⟨e, hold, hpe⟩)
  cases s with
  | addServerEntry k x =>
    obtain ⟨hm, he⟩ := hv.newEntry k x
    have hm' := hadd k x { (m.newEntry k x).2.context with
      serverArrayEntries := (m.newEntry k x).1 :: (m.newEntry k x).2.context.serverArrayEntries }
      rfl (fun e he => by simpa [Mem.newEntry, Mem.strdup] using he) (m.newEntry k x).2.heap
    rw [Setter.apply, wasmAddServerEntry]
    split
    · exact hm'.setString (v := { v with serverArrayEntries := ⟨[], k, x⟩ :: v.serverArrayEntries })
        { hm with serverArrayEntries := .cons he hm.serverArrayEntries } .documentRoot x
    · exact hm'
  | addEnvEntry k x =>
    refine hadd k x { (m.newEntry k x).2.context with
      envArrayEntries := (m.newEntry k x).1 :: (m.newEntry k x).2.context.envArrayEntries }
      rfl (fun e he => ?_) (m.newEntry k x).2.heap
    simp only [Mem.newEntry, Mem.strdup, List.mem_append, List.mem_cons] at he ⊢
    tauto
  | setSkipShebang n => exact h
  | setContentLength n => exact h
  | setRequestPort n => exact h
  | setQueryString s => exact h.setString hv _ s
  | setPathTranslated s => exact h.setString hv _ s
  | setRequestUri s => exact h.setString hv _ s
  | setRequestMethod s => exact h.setString hv _ s
  | setRequestHost s => exact h.setString hv _ s
  | setContentType s => exact h.setString hv _ s
  | setRequestBody s => exact h.setString hv _ s
  | setCookies s => exact h.setString hv _ s

/-! ## The answers of a request -/

/-- A callback reads `SG(request_info)` only where `InfoCurrent` compares it with the context. -/
theorem callback_of_infoCurrent {ρ : Type*} (d : ρ → Option CString)
    (memcpy : CString → Nat → Nat → Option CString) {c : ServerContext ρ} {i : RequestInfo ρ}
    {cb : Callback} (h : cb.InfoCurrent c i) :
    callback d memcpy c i cb = callback d memcpy c { c.info with protoNum := i.protoNum } cb := by
  cases cb with
  | getenv name n => rfl
  | readCookies => rfl
  | readPostBody n r =>
    have hlen : i.contentLength = c.contentLength := h
    rw [callback, callback, wasmSapiReadPostBody, wasmSapiReadPostBody, hlen]
    rfl
  | requestInfo f =>
    have hf : i.str f = c.str f.source := h
    simp only [callback, hf, ServerContext.info]
  | registerServerVariables imported =>
    obtain ⟨huri, hquery, hmethod⟩ := h
    simp only [callback, wasmSapiRegisterServerVariables, huri, hquery, hmethod,
      ServerContext.info, InfoField.source]

/-- A callback that touches nothing the context owns is answered the same after the destruction. -/
theorem callback_destroy (memcpy : CString → Nat → Nat → Option CString) {m : Mem}
    (hb : BodyApart m) {i : RequestInfo Ptr} {cb : Callback} (h : ¬ cb.Touches m.context i) :
    callback (wasmDestroyServerContext m).read memcpy m.context i cb =
      callback m.heap.read memcpy m.context i cb := by
  cases cb with
  | getenv name n =>
    have henv : m.context.envArrayEntries = [] := by simpa [Callback.Touches] using h
    simp only [callback, henv, wasmSapiGetenv]
  | readCookies =>
    have hc : m.context.str .cookies = none := by simpa [Callback.Touches] using h
    simp only [callback, wasmSapiReadCookies, hc, derefOpt]
  | requestInfo f =>
    have hf : i.str f = none := by simpa [Callback.Touches] using h
    simp only [callback, hf, derefOpt]
  | readPostBody n r =>
    simp only [callback, wasmSapiReadPostBody]
    split
    · rfl
    · rename_i p hp
      rw [read_destroy (hb p hp)]
  | registerServerVariables imported =>
    simp only [Callback.Touches, not_or, not_and, ne_eq, not_not] at h
    obtain ⟨hentries, hpair, hhost, huri, hquery, hmethod⟩ := h
    simp only [callback, wasmSapiRegisterServerVariables, hentries, hhost, huri, hquery, hmethod,
      derefOpt, List.mapM_nil]
    cases hr : m.context.str .documentRoot with
    | none => rfl
    | some r => rw [hpair (by simp [hr])]

/-- A callback that asks only for what is there copies as much as it asks for. -/
theorem callback_of_inside {v : ServerContext CString} {cb : Callback} (h : cb.Inside v) :
    callback some copyInside v v.info cb = callback some copyUpTo v v.info cb := by
  cases cb with
  | getenv name n => rfl
  | registerServerVariables imported => rfl
  | readCookies => rfl
  | requestInfo f => rfl
  | readPostBody n r =>
    rw [callback, callback, wasmSapiReadPostBody, wasmSapiReadPostBody]
    split
    · rfl
    · rename_i body hbody
      dsimp only
      split
      · rename_i hpos
        have hle : r + postBodyCount n r v.info.contentLength ≤ body.length := h body hbody hpos
        simp only [copyInside, copyUpTo, Option.bind_eq_bind, Option.bind_some, if_pos hle]
      · rfl

/-- Under the pointers of a context that holds `v`, a callback that finds a current
`SG(request_info)` and asks for no more than there is is answered from `v`. -/
theorem callback_of_holds {m : Mem} {v : ServerContext CString} (h : m.Holds v)
    {i : RequestInfo Ptr} (hproto : i.protoNum ≠ -1) {cb : Callback}
    (hcur : cb.InfoCurrent m.context i) (hin : cb.Inside v) :
    callback m.heap.read copyInside m.context i cb = some (cb.answer v) := by
  rw [callback_of_infoCurrent _ _ hcur, Callback.answer, Option.some_get,
    ← callback_of_inside hin]
  refine callback_rel (fun _ _ hp => hp) h (fun f => h.str f.source) h.contentLength ?_ cb
  have hv : v.info.protoNum ≠ -1 := by simp [ServerContext.info]
  exact ⟨fun he => absurd he hproto, fun he => absurd he hv⟩

/-- A freshly filled in `SG(request_info)` is current for every callback. -/
theorem infoCurrent_info {ρ : Type*} (c : ServerContext ρ) (cb : Callback) :
    cb.InfoCurrent c c.info := by
  cases cb <;> simp [Callback.InfoCurrent, ServerContext.info, InfoField.source]

namespace Sapi

theorem requestInit_mem (r : Request δ) (s : Sapi δ) : (s.requestInit r).2.mem = s.mem := by
  simp only [requestInit]
  split
  · rfl
  · split <;> rfl

theorem requestInit_requestInfo (r : Request δ) (s : Sapi δ) :
    (s.requestInit r).2.requestInfo = s.lateInfo r := by
  simp only [requestInit, lateInfo]
  split
  · rename_i h
    rw [if_neg (show ¬ s.Reached r from fun hr => hr h)]
    rfl
  · rename_i h
    rw [if_pos (show s.Reached r from h)]
    split <;> rfl

/-- The state the callbacks rely on: the context holds the values that were set, its body apart
from what it owns, and no request runs under protocol number `-1`. -/
structure Coherent (p : Sapi δ × ServerContext CString) : Prop where
  /-- The pointers are live and lead to the values. -/
  holds : p.1.mem.Holds p.2
  /-- The destruction will not free the body. -/
  bodyApart : BodyApart p.1.mem
  /-- `proto_num` is one that `SERVER_PORT` is registered for. -/
  protoNum : p.1.requestInfo.protoNum ≠ -1

theorem lateInfo_protoNum {p : Sapi δ × ServerContext CString} (h : Coherent p) (r : Request δ) :
    (p.1.lateInfo r).protoNum ≠ -1 := by
  rw [lateInfo]
  split
  · simp [ServerContext.info]
  · exact h.protoNum

/-- Every call keeps the state coherent. -/
theorem coherent_step {p : Sapi δ × ServerContext CString} (h : Coherent p) (e : Call δ) :
    Coherent (stepBoth p e) := by
  cases e with
  | set x => exact ⟨holds_apply h.holds x, h.bodyApart.apply h.holds x, h.protoNum⟩
  | addCliArg arg => exact ⟨h.holds, h.bodyApart, h.protoNum⟩
  | cli c =>
    have hmem : (p.1.runCli c).2.mem = p.1.mem := by
      simp only [runCli]
      split <;> rfl
    have hinfo : (p.1.runCli c).2.requestInfo = p.1.requestInfo := by
      simp only [runCli]
      split <;> rfl
    refine ⟨?_, ?_, ?_⟩
    · rw [show (stepBoth p (.cli c)).1.mem = p.1.mem from hmem]; exact h.holds
    · rw [show (stepBoth p (.cli c)).1.mem = p.1.mem from hmem]; exact h.bodyApart
    · rw [show (stepBoth p (.cli c)).1.requestInfo = p.1.requestInfo from hinfo]; exact h.protoNum
  | request r =>
    refine ⟨holds_init _, bodyApart_init _, ?_⟩
    rw [show (stepBoth p (.request r)).1.requestInfo = p.1.lateInfo r from
      requestInit_requestInfo r p.1]
    exact lateInfo_protoNum h r

/-- **A careful request is answered from its own values.** -/
theorem ownValues_of_coherent {p : Sapi δ × ServerContext CString} (h : Coherent p) {e : Call δ}
    (hc : Careful p e) : OwnValues p e := by
  cases e with
  | set x => trivial
  | addCliArg arg => trivial
  | cli c => trivial
  | request r =>
    obtain ⟨hinside, hearly, hlate⟩ := hc
    simp only [callbacks, List.forall_mem_append] at hinside
    obtain ⟨⟨hinearly, hinduring⟩, hinlate⟩ := hinside
    refine ⟨?_, rfl⟩
    rw [answers, callbacks, List.map_append, List.map_append, List.append_assoc]
    congr 1
    · -- before the copy: the context is live, `SG(request_info)` is what the last request left
      exact List.map_congr_left fun cb hcb =>
        callback_of_holds h.holds h.protoNum (hearly cb hcb) (hinearly cb hcb)
    congr 1
    · -- after it: both are the request's own
      split
      · rename_i hreached
        rw [if_pos hreached] at hinduring
        refine List.map_congr_left fun cb hcb => ?_
        rw [answer, requestInit_mem, requestInit_requestInfo, lateInfo, if_pos hreached]
        exact callback_of_holds h.holds (by simp [ServerContext.info]) (infoCurrent_info _ cb)
          (hinduring cb hcb)
      · rfl
    · -- inside `php_request_shutdown`: only what the context does not own can still be read
      refine List.map_congr_left fun cb hcb => ?_
      obtain ⟨hcur, htouch⟩ := hlate cb hcb
      simp only [answer, destroyed, requestInit_mem, requestInit_requestInfo]
      rw [callback_destroy _ h.bodyApart htouch]
      exact callback_of_holds h.holds (lateInfo_protoNum h r) hcur (hinlate cb hcb)

/-- Right after `php_wasm_init`, nothing is set and nothing is live. -/
theorem coherent_start (fds : Posix.FdTable δ) : Coherent (Sapi.start fds, wasmInitServerContext) :=
  ⟨holds_init _, bodyApart_init _, by simp [start, RequestInfo.zero]⟩

/-- **Requests observe their own values**, in every sequence of setters, requests and CLI runs
whose requests are careful: every callback reads live memory only, sees what was set for its own
request, and leaves nothing behind for the next one. -/
theorem ownValues_of_careful (fds : Posix.FdTable δ) (es : List (Call δ))
    (h : Machine.Along stepBoth Careful (Sapi.start fds, wasmInitServerContext) es) :
    Machine.Along stepBoth OwnValues (Sapi.start fds, wasmInitServerContext) es :=
  Machine.Along.of_inv (I := Coherent) (fun _ e hp _ => coherent_step hp e)
    (fun _ _ hp hc => ownValues_of_coherent hp hc) (coherent_start fds) h

end Sapi

/-! ### A shutdown function that calls `getenv` -/

/-- One environment entry, and a request whose shutdown functions look it up. -/
def lateGetenv : List (Call Nat) :=
  [.set (.addEnvEntry (bytes "KEY") (bytes "value")),
    .request { plainRequest with late := [.getenv (bytes "KEY") 3] }]

theorem lateGetenv_not_ownValues :
    ¬ Machine.Along Sapi.stepBoth Sapi.OwnValues (Sapi.start stdioTable, wasmInitServerContext)
        lateGetenv := by
  intro h
  exact absurd h.2.1.1 (by decide)

/-- A request that reads everything while it runs, and afterwards only the body and the cookies
that were not set. -/
def carefulCalls : List (Call Nat) :=
  [.set (.addEnvEntry (bytes "KEY") (bytes "value")), .set (.setRequestUri (bytes "/index.php")),
    .set (.setRequestBody (bytes "a=1")), .set (.setContentLength 3),
    .request { plainRequest with
      early := [.getenv (bytes "KEY") 3]
      during := [.registerServerVariables [], .getenv (bytes "KEY") 3, .requestInfo .requestUri]
      late := [.readCookies, .readPostBody 16 0] },
    .request plainRequest]

theorem carefulCalls_ownValues :
    Machine.Along Sapi.stepBoth Sapi.OwnValues (Sapi.start stdioTable, wasmInitServerContext)
      carefulCalls :=
  Sapi.ownValues_of_careful stdioTable carefulCalls (by decide)

end PhpWasm
