import Mathlib.Data.List.Nodup
import PhpWasm.Process.ProcOpen

/-!
# The descriptors of `proc_open`

Every entry of a descriptor specification makes `proc_open` open one descriptor, or two for a pipe.
`exit_fail` frees memory and closes none of them, and the `exit` handler of the child closes the
child's ends of the entries 0, 1 and 2 and of no others.

* `acquire_opened` and `walk_opened` say what has been opened at any point of the walk.
* `mem_exitFds` says which of it the `exit` handler closes, `mem_pipes_iff` which of it the streams
  in `$pipes` do.
* `Call.tidy_iff`: when a call that returns `FALSE` leaves the descriptor table as it was, and when
  a call that succeeds has nothing left open in the end.
-/

set_option autoImplicit false

namespace PhpWasm.Process

open Posix

variable {δ : Type*}

/-! ## What an entry opens -/

/-- What was opened for an item, in that order. -/
def DescriptorItem.fds (d : DescriptorItem) : List Int :=
  if d.mode = descPipe then [d.parentend, d.childend]
  else if d.mode = descPipe ||| descParentModeWrite then [d.childend, d.parentend]
  else [d.childend]

theorem DescriptorItem.childend_mem (d : DescriptorItem) : d.childend ∈ d.fds := by
  rw [fds]
  split
  · simp
  · split <;> simp

/-- Only a pipe has a parent end. -/
theorem DescriptorItem.mem_fds_iff (d : DescriptorItem) (x : Int) :
    x ∈ d.fds ↔ x = d.childend ∨ (d.isPipe = true ∧ x = d.parentend) := by
  rw [fds, isPipe, decide_eq_true_iff]
  by_cases hr : d.mode = descPipe
  · simp [hr, or_comm]
  · by_cases hw : d.mode = descPipe ||| descParentModeWrite
    · rw [if_neg hr, if_pos hw]
      simp [hw]
    · simp [hr, hw]

/-- The item of a specification asks for a pipe. -/
def DescItem.isPipe : DescItem → Bool
  | .array (some ztype) _ _ =>
    (tryConvertToString ztype).any fun s => s.val = bytes "pipe"
  | _ => false

/-- The item names a file, which is opened as a stream that cannot be cast but has a descriptor:
the one failure that leaves something open. -/
def DescItem.LeavesStream (item : DescItem) (att : Attempt δ) (t : FdTable δ) : Prop :=
  match item with
  | .array (some ztype) (some zfile) (some zmode) =>
    ((tryConvertToString ztype).any fun s => s.val = bytes "file") = true ∧
      (tryConvertToString zfile).isSome = true ∧ (tryConvertToString zmode).isSome = true ∧
      ∃ holds, att.stream = .uncastable holds ∧ ¬ FdTable.OpenFails holds t
  | _ => False

/-- What is known of an acquisition: if it worked the descriptors of its item were opened, and
otherwise something was opened just when it `leaves` something. -/
def AcquiredFrom (t₀ : FdTable δ) (fds : List Int) (index : Int) (pipe : Bool) (leaves : Prop) :
    Acquired δ → Prop
  | (.ok d, t', _) => FdTable.Opened t₀ t' (fds ++ d.fds) ∧ d.index = index ∧ d.isPipe = pipe
  | (.error _, t', _) => ∃ extra, FdTable.Opened t₀ t' (fds ++ extra) ∧ (extra = [] ↔ ¬ leaves)

variable {t₀ t : FdTable δ} {fds : List Int} {index : Int} {pipe : Bool} {leaves : Prop}

theorem acquired_error (h : FdTable.Opened t₀ t fds) (hno : ¬ leaves) (stop : Stop)
    (ws : List CString) : AcquiredFrom t₀ fds index pipe leaves (.error stop, t, ws) :=
  ⟨[], by rwa [List.append_nil], iff_of_true rfl hno⟩

theorem acquired_exitFail (h : FdTable.Opened t₀ t fds) (hno : ¬ leaves) (ws : List CString) :
    AcquiredFrom t₀ fds index pipe leaves (exitFail t ws) :=
  acquired_error h hno .exitFail ws

/-- A system call that opens one descriptor for the child, or fails. -/
theorem acquired_childOnly (h : FdTable.Opened t₀ t fds) (hno : ¬ leaves) {r : Int × FdTable δ}
    (n : BitVec 64) {mode : Nat} (hmode : mode = descFile ∨ mode = descRedirect)
    (ws : List CString)
    (hr : (r.1 < 0 ∧ r.2 = t) ∨ (0 ≤ r.1 ∧ FdTable.Opened t₀ r.2 (fds ++ [r.1]))) :
    AcquiredFrom t₀ fds (n.setWidth 32).toInt false leaves
      (if r.1 < 0 then exitFail r.2 ws else (.ok (childOnly n r.1 mode), r.2, [])) := by
  rcases hr with ⟨hneg, ht⟩ | ⟨hpos, ho⟩
  · rw [if_pos hneg, ht]
    exact acquired_exitFail h hno ws
  · rw [if_neg (Int.not_lt.2 hpos)]
    refine ⟨?_, rfl, ?_⟩
    · have hfds : (childOnly n r.1 mode).fds = [r.1] := by
        rcases hmode with rfl | rfl <;> rfl
      rwa [hfds]
    · rcases hmode with rfl | rfl <;> rfl

theorem acquireStream_opened (h : FdTable.Opened t₀ t fds) (hno : ¬ leaves) (n : BitVec 64)
    (fd : Option Int) (att : Attempt δ) :
    AcquiredFrom t₀ fds (n.setWidth 32).toInt false leaves (acquireStream n fd att t) := by
  cases fd with
  | none => exact acquired_exitFail h hno []
  | some fd => exact acquired_childOnly h hno n (Or.inl rfl) _ (h.sysDup att.dup fd)

theorem acquirePipe_opened (h : FdTable.Opened t₀ t fds) (hno : ¬ leaves) (n : BitVec 64)
    (zmode : Option Zval) (att : Attempt δ) :
    AcquiredFrom t₀ fds (n.setWidth 32).toInt true leaves (acquirePipe n zmode att t) := by
  unfold acquirePipe
  split
  · exact acquired_exitFail h hno _
  · split
    · exact acquired_exitFail h hno []
    · rcases h.sysPipe att.pipe with hp | ⟨r, w, t', hp, ho⟩
      · rw [hp]
        exact acquired_exitFail h hno _
      · rw [hp]
        dsimp only
        split <;> exact ⟨ho, rfl, rfl⟩

theorem acquireFile_opened (h : FdTable.Opened t₀ t fds) (n : BitVec 64) {ztype : Zval}
    {z : ZString} (hz : tryConvertToString ztype = some z) (hfile : z.val = bytes "file")
    (zfile zmode : Option Zval) (att : Attempt δ) :
    AcquiredFrom t₀ fds (n.setWidth 32).toInt false
      (DescItem.LeavesStream (.array (some ztype) zfile zmode) att t)
      (acquireFile n zfile zmode att t) := by
  cases zfile with
  | none => exact acquired_exitFail h id _
  | some zfile =>
    cases hf : tryConvertToString zfile with
    | none =>
      unfold acquireFile
      dsimp only
      rw [hf]
      refine acquired_exitFail h (fun hl => ?_) []
      cases zmode with
      | none => exact hl
      | some zmode => simp [DescItem.LeavesStream, hf] at hl
    | some file =>
      cases zmode with
      | none =>
        rw [acquireFile, hf]
        exact acquired_exitFail h id _
      | some zmode =>
        have hleaves : DescItem.LeavesStream (.array (some ztype) (some zfile) (some zmode)) att t ↔
            (tryConvertToString zmode).isSome = true ∧
              ∃ holds, att.stream = .uncastable holds ∧ ¬ FdTable.OpenFails holds t := by
          simp [DescItem.LeavesStream, hz, hfile, hf]
        rw [acquireFile, hf]
        dsimp only
        split
        · rename_i hm
          exact acquired_exitFail h (by rw [hleaves, hm]; simp) []
        split
        · rename_i hs
          exact acquired_exitFail h (by rw [hleaves, hs]; simp) []
        · rename_i mode hm _ holds hs
          by_cases hopen : FdTable.OpenFails holds t
          · rw [FdTable.sysOpen_of_fails hopen]
            refine acquired_exitFail h (fun hl => ?_) []
            obtain ⟨holds', hs', hno⟩ := (hleaves.1 hl).2
            cases hs.symm.trans hs'
            exact hno hopen
          · -- the only failure that leaves a descriptor open
            obtain ⟨fd, d, -, hr, hfree, heq⟩ := FdTable.sysOpen_of_not_fails hopen
            rw [heq]
            refine ⟨[fd], h.set hr hfree d, iff_of_false (by simp) (not_not.2 ?_)⟩
            exact hleaves.2 ⟨by rw [hm]; rfl, holds, hs, hopen⟩
        · rename_i hs
          exact acquired_childOnly h (by rw [hleaves, hs]; simp) n (Or.inl rfl) _ (h.sysOpen _)

theorem acquireRedirect_opened (h : FdTable.Opened t₀ t fds) (hno : ¬ leaves) (n : BitVec 64)
    (ztarget : Option Zval) (att : Attempt δ) (descs : List DescriptorItem) :
    AcquiredFrom t₀ fds (n.setWidth 32).toInt false leaves
      (acquireRedirect n ztarget att descs t) := by
  unfold acquireRedirect
  split
  · exact acquired_exitFail h hno _
  · dsimp only
    split
    · exact acquired_childOnly h hno n (Or.inr rfl) _ (h.sysDup att.dup _)
    · split
      · exact acquired_exitFail h hno _
      · exact acquired_childOnly h hno n (Or.inr rfl) _ (h.sysDup att.dup _)
  · exact acquired_exitFail h hno _

theorem acquireNull_opened (h : FdTable.Opened t₀ t fds) (hno : ¬ leaves) (n : BitVec 64)
    (att : Attempt δ) :
    AcquiredFrom t₀ fds (n.setWidth 32).toInt false leaves (acquireNull n att t) :=
  acquired_childOnly h hno n (Or.inl rfl) _ (h.sysOpen att.devNull)

/-- Only an item that names a file leaves a stream. -/
theorem not_leavesStream {ztype : Zval} {z : ZString} (hz : tryConvertToString ztype = some z)
    (hfile : z.val ≠ bytes "file") (zfirst zsecond : Option Zval) (att : Attempt δ)
    (t : FdTable δ) : ¬ DescItem.LeavesStream (.array (some ztype) zfirst zsecond) att t := by
  cases zfirst with
  | none => exact id
  | some zfirst =>
    cases zsecond with
    | none => exact id
    | some zsecond => simp [DescItem.LeavesStream, hz, hfile]

/-- **What one entry opens.** -/
theorem acquire_opened (h : FdTable.Opened t₀ t fds) (n : BitVec 64) (item : DescItem)
    (att : Attempt δ) (descs : List DescriptorItem) :
    AcquiredFrom t₀ fds (n.setWidth 32).toInt item.isPipe (item.LeavesStream att t)
      (acquire n item att descs t) := by
  unfold acquire
  split
  · exact acquired_error h id .returnFalse []
  · exact acquireStream_opened h id n _ att
  · exact acquired_exitFail h id _
  · exact acquired_exitFail h id _
  · rename_i ztype zfirst zsecond
    cases hz : tryConvertToString ztype with
    | none =>
      refine acquired_exitFail h (fun hl => ?_) []
      unfold DescItem.LeavesStream at hl
      split at hl
      · rename_i heq
        cases heq
        simp [hz] at hl
      · exact hl
    | some z =>
      have hpipe : (DescItem.array (some ztype) zfirst zsecond).isPipe =
          decide (z.val = bytes "pipe") := by
        simp [DescItem.isPipe, hz]
      rw [hpipe]
      dsimp only
      split
      · rename_i hp
        have hno := not_leavesStream hz (by rw [hp]; decide) zfirst zsecond att t
        rw [decide_eq_true hp]
        exact acquirePipe_opened h hno n zfirst att
      rename_i hp
      rw [decide_eq_false hp]
      split
      · rename_i hfile
        exact acquireFile_opened h n hz hfile zfirst zsecond att
      rename_i hfile
      have hno := not_leavesStream hz hfile zfirst zsecond att t
      split
      · exact acquireRedirect_opened h hno n zfirst att descs
      split
      · exact acquireNull_opened h hno n att
      split
      · exact acquired_exitFail h hno _
      · exact acquired_exitFail h hno _

/-- **What the walk opens**: the descriptors of the items it sets up, and, where it gives up, what
the last entry may have left. -/
theorem walk_opened (es : List (SpecEntry δ)) (descs : List DescriptorItem)
    (h : FdTable.Opened t₀ t (descs.flatMap DescriptorItem.fds)) :
    match (walk es descs t).result with
    | .ok ds => FdTable.Opened t₀ (walk es descs t).fds (ds.flatMap DescriptorItem.fds) ∧
        ∃ new, ds = descs ++ new ∧ new.map DescriptorItem.index = es.map (·.key.index) ∧
          new.map DescriptorItem.isPipe = es.map (·.item.isPipe)
    | .error _ => ∃ extra,
        FdTable.Opened t₀ (walk es descs t).fds (descs.flatMap DescriptorItem.fds ++ extra) := by
  induction es generalizing descs t with
  | nil => exact ⟨h, [], by simp, rfl, rfl⟩
  | cons e es ih =>
    obtain ⟨key, item, att⟩ := e
    cases key with
    | string s => exact ⟨[], by rwa [List.append_nil]⟩
    | int n =>
      have ha := acquire_opened h n item att descs
      rw [walk]
      dsimp only
      cases hacq : acquire n item att descs t with
      | mk res rest =>
        obtain ⟨t', ws⟩ := rest
        rw [hacq] at ha
        cases res with
        | error stop =>
          obtain ⟨extra, ho, -⟩ := ha
          exact ⟨extra, ho⟩
        | ok d =>
          obtain ⟨ho, hindex, hpipe⟩ := ha
          have hsnoc : (descs ++ [d]).flatMap DescriptorItem.fds =
              descs.flatMap DescriptorItem.fds ++ d.fds := by
            simp
          have hrec := ih (descs ++ [d]) (t := t') (by rwa [hsnoc])
          dsimp only
          split
          · rename_i ds hds
            rw [hds] at hrec
            obtain ⟨ho', new, rfl, hi, hp⟩ := hrec
            exact ⟨ho', d :: new, by simp, by simp [hi, hindex, Key.index], by simp [hp, hpipe]⟩
          · rename_i hds
            rw [hds, hsnoc] at hrec
            obtain ⟨extra, ho'⟩ := hrec
            exact ⟨d.fds ++ extra, by rwa [← List.append_assoc]⟩

/-- A walk that goes through, from the start. -/
theorem walk_ok {es : List (SpecEntry δ)} {ds : List DescriptorItem}
    (h : (walk es [] t).result = .ok ds) :
    FdTable.Opened t (walk es [] t).fds (ds.flatMap DescriptorItem.fds) ∧
      ds.map DescriptorItem.index = es.map (·.key.index) ∧
      ds.map DescriptorItem.isPipe = es.map (·.item.isPipe) := by
  have hw := walk_opened es [] (FdTable.Opened.refl t)
  rw [h] at hw
  obtain ⟨ho, new, rfl, hi, hp⟩ := hw
  exact ⟨ho, hi, hp⟩

/-- The entry cannot be acquired, and it is not a file that is left open as a stream. -/
def SpecEntry.FailsClean (e : SpecEntry δ) (t : FdTable δ) : Prop :=
  match e.key with
  | .string _ => True
  | .int n => (∃ stop, (acquire n e.item e.attempt [] t).1 = .error stop) ∧
      ¬ e.item.LeavesStream e.attempt t

/-- **A walk that gives up** leaves the table as it was just when it gives up at the first entry
and that one leaves nothing open. -/
theorem walk_error_fds_iff {e : SpecEntry δ} {es : List (SpecEntry δ)} {stop : Stop}
    (h : (walk (e :: es) [] t).result = .error stop) :
    (walk (e :: es) [] t).fds = t ↔ e.FailsClean t := by
  obtain ⟨key, item, att⟩ := e
  cases key with
  | string s => exact iff_of_true rfl trivial
  | int n =>
    have ha := acquire_opened (FdTable.Opened.refl t) n item att []
    rw [SpecEntry.FailsClean]
    rw [walk] at h ⊢
    dsimp only at h ⊢
    cases hacq : acquire n item att [] t with
    | mk res rest =>
      obtain ⟨t', ws⟩ := rest
      rw [hacq] at ha h
      cases res with
      | error stop =>
        obtain ⟨extra, ho, hextra⟩ := ha
        have heq : t' = t ↔ ¬ item.LeavesStream att t := ho.eq_iff.trans hextra
        exact heq.trans ⟨fun hno => ⟨⟨stop, rfl⟩, hno⟩, fun h => h.2⟩
      | ok d =>
        dsimp only at h ⊢
        have hfirst : FdTable.Opened t t' (([] ++ [d]).flatMap DescriptorItem.fds) := by
          simpa using ha.1
        have hrec := walk_opened es ([] ++ [d]) hfirst
        rw [h] at hrec
        obtain ⟨extra, ho⟩ := hrec
        refine iff_of_false (fun heq => ?_) fun ⟨⟨stop, hstop⟩, _⟩ => by cases hstop
        -- the first entry opened something
        have hnil := ho.eq_iff.1 heq
        have hmem := d.childend_mem
        simp at hnil
        rw [hnil.1] at hmem
        cases hmem

/-- An entry that a walk gets past was acquired. -/
theorem not_failsClean_of_walk_ok {e : SpecEntry δ} {es : List (SpecEntry δ)}
    {ds : List DescriptorItem} (h : (walk (e :: es) [] t).result = .ok ds) : ¬ e.FailsClean t := by
  obtain ⟨key, item, att⟩ := e
  cases key with
  | string s => cases h
  | int n =>
    rw [SpecEntry.FailsClean]
    rw [walk] at h
    dsimp only at h ⊢
    cases hacq : acquire n item att [] t with
    | mk res rest =>
      rw [hacq] at h
      cases res with
      | error stop => cases h
      | ok d => exact fun ⟨⟨stop, hstop⟩, _⟩ => by cases hstop

/-! ## What is closed in the end -/

section Closed

variable {ds : List DescriptorItem}

/-- No descriptor belongs to two items. -/
theorem eq_of_mem_fds (hnd : (ds.flatMap DescriptorItem.fds).Nodup) {a b : DescriptorItem} {x : Int}
    (ha : a ∈ ds) (hb : b ∈ ds) (hxa : x ∈ a.fds) (hxb : x ∈ b.fds) : a = b := by
  by_contra hne
  have hpair := (List.nodup_flatMap.1 hnd).2
  have : Std.Symm (Function.onFun List.Disjoint DescriptorItem.fds) :=
    ⟨fun _ _ h _ hx hy => h hy hx⟩
  exact hpair.forall ha hb hne hxa hxb

theorem nodup_items (hnd : (ds.flatMap DescriptorItem.fds).Nodup) : ds.Nodup := by
  refine (List.nodup_flatMap.1 hnd).2.imp fun {a b} hdis hab => ?_
  subst hab
  exact hdis a.childend_mem a.childend_mem

/-- The two ends of a pipe differ. -/
theorem childend_ne_parentend (hnd : (ds.flatMap DescriptorItem.fds).Nodup) {d : DescriptorItem}
    (hd : d ∈ ds) (hp : d.isPipe = true) : d.childend ≠ d.parentend := by
  have hd' := (List.nodup_flatMap.1 hnd).1 d hd
  rw [DescriptorItem.isPipe, decide_eq_true_iff] at hp
  rw [DescriptorItem.fds] at hd'
  by_cases hr : d.mode = descPipe
  · rw [if_pos hr] at hd'
    simp at hd'
    exact Ne.symm hd'
  · rw [if_neg hr, if_pos (hp.resolve_left hr)] at hd'
    simpa using hd'

theorem mem_exitFds (x : Int) : x ∈ exitFds ds ↔
    ∃ d, (d.index = 0 ∨ d.index = 1 ∨ d.index = 2) ∧ jsStd ds d.index = some d ∧
      d.childend = x := by
  have hindex : ∀ n d, jsStd ds n = some d → d.index = n := by
    intro n d hd
    simpa using List.find?_some hd
  simp only [exitFds, List.mem_filterMap, List.mem_cons, List.not_mem_nil, or_false,
    Option.map_eq_some_iff]
  constructor
  · rintro ⟨n, hn, d, hd, rfl⟩
    have hdn := hindex n d hd
    exact ⟨d, by omega, by rwa [hdn], rfl⟩
  · rintro ⟨d, hn, hd, rfl⟩
    exact ⟨d.index, by omega, d, hd, rfl⟩

theorem mem_of_jsStd {n : Int} {d : DescriptorItem} (h : jsStd ds n = some d) : d ∈ ds :=
  List.mem_reverse.1 (List.mem_of_find?_eq_some h)

/-- **What the `exit` handler closes**: the child's ends of the items with an index of 0, 1 or 2
that no later item has. -/
theorem childend_mem_exitFds_iff (hnd : (ds.flatMap DescriptorItem.fds).Nodup) {d : DescriptorItem}
    (hd : d ∈ ds) : d.childend ∈ exitFds ds ↔
      (d.index = 0 ∨ d.index = 1 ∨ d.index = 2) ∧ jsStd ds d.index = some d := by
  rw [mem_exitFds]
  constructor
  · rintro ⟨e, hn, he, hed⟩
    have hmem := hed ▸ e.childend_mem
    obtain rfl := eq_of_mem_fds hnd (mem_of_jsStd he) hd hmem d.childend_mem
    exact ⟨hn, he⟩
  · rintro ⟨hn, hstd⟩
    exact ⟨d, hn, hstd, rfl⟩

/-- It closes no parent end. -/
theorem parentend_notMem_exitFds (hnd : (ds.flatMap DescriptorItem.fds).Nodup) {d : DescriptorItem}
    (hd : d ∈ ds) (hp : d.isPipe = true) : d.parentend ∉ exitFds ds := by
  intro hmem
  obtain ⟨e, -, he, hed⟩ := (mem_exitFds _).1 hmem
  have hpar : d.parentend ∈ d.fds := (d.mem_fds_iff _).2 (Or.inr ⟨hp, rfl⟩)
  obtain rfl := eq_of_mem_fds hnd (mem_of_jsStd he) hd (hed ▸ e.childend_mem) hpar
  exact childend_ne_parentend hnd hd hp hed

theorem mem_of_mem_exitFds {x : Int} (hx : x ∈ exitFds ds) :
    x ∈ ds.flatMap DescriptorItem.fds := by
  obtain ⟨d, -, hd, rfl⟩ := (mem_exitFds x).1 hx
  exact List.mem_flatMap.2 ⟨d, mem_of_jsStd hd, d.childend_mem⟩

/-- Every item is the one its index finds, just when no index occurs twice. -/
theorem jsStd_index_iff (hitems : ds.Nodup) :
    (∀ d ∈ ds, jsStd ds d.index = some d) ↔ (ds.map DescriptorItem.index).Nodup := by
  constructor
  · intro h
    refine hitems.map_on fun a ha b hb hab => ?_
    have heq := h a ha
    rw [hab, h b hb] at heq
    exact (Option.some.inj heq).symm
  · intro h d hd
    cases hfind : jsStd ds d.index with
    | none =>
      have hno := List.find?_eq_none.1 hfind d (List.mem_reverse.2 hd)
      exact absurd (decide_eq_true rfl) hno
    | some e =>
      have hindex : e.index = d.index := by simpa using List.find?_some hfind
      rw [List.inj_on_of_nodup_map h (mem_of_jsStd hfind) hd hindex]

/-- **When the `exit` handler closes the child's end of every item.** -/
theorem all_childend_mem_iff (hnd : (ds.flatMap DescriptorItem.fds).Nodup) :
    (∀ d ∈ ds, d.childend ∈ exitFds ds) ↔
      (∀ n ∈ ds.map DescriptorItem.index, n = 0 ∨ n = 1 ∨ n = 2) ∧
        (ds.map DescriptorItem.index).Nodup := by
  rw [← jsStd_index_iff (nodup_items hnd), List.forall_mem_map]
  constructor
  · intro h
    exact ⟨fun d hd => ((childend_mem_exitFds_iff hnd hd).1 (h d hd)).1,
      fun d hd => ((childend_mem_exitFds_iff hnd hd).1 (h d hd)).2⟩
  · rintro ⟨hindex, hstd⟩ d hd
    exact (childend_mem_exitFds_iff hnd hd).2 ⟨hindex d hd, hstd d hd⟩

/-- The parent ends that became streams. -/
theorem mem_pipes_iff (f : Nat → Bool) (i : Nat) (x : Int) :
    some x ∈ (openStreams f i ds).pipes ↔
      ∃ j d, ds[j]? = some d ∧ d.isPipe = true ∧ f (i + j) = true ∧ d.parentend = x := by
  induction ds generalizing i with
  | nil => simp [openStreams]
  | cons d ds ih =>
    have hhead : (∃ j e, (d :: ds)[j]? = some e ∧ e.isPipe = true ∧ f (i + j) = true ∧
        e.parentend = x) ↔ (d.isPipe = true ∧ f i = true ∧ d.parentend = x) ∨
          ∃ j e, ds[j]? = some e ∧ e.isPipe = true ∧ f (i + 1 + j) = true ∧ e.parentend = x := by
      constructor
      · rintro ⟨j, e, hj, he⟩
        cases j with
        | zero => cases hj; exact Or.inl he
        | succ j => exact Or.inr ⟨j, e, hj, by rwa [Nat.add_assoc, Nat.add_comm 1 j]⟩
      · rintro (hd | ⟨j, e, hj, he⟩)
        · exact ⟨0, d, rfl, hd⟩
        · exact ⟨j + 1, e, hj, by rwa [Nat.add_assoc, Nat.add_comm 1 j] at he⟩
    rw [hhead, ← ih, openStreams]
    by_cases hp : d.isPipe = true
    · by_cases hf : f i = true <;> simp [hp, hf, eq_comm]
    · simp [hp]

theorem phpPipes_subset (f : Nat → Bool) (i : Nat) (p : Int × Int)
    (hp : p ∈ (openStreams f i ds).phpPipes) : some p.2 ∈ (openStreams f i ds).pipes := by
  induction ds generalizing i with
  | nil => simp [openStreams] at hp
  | cons d ds ih =>
    rw [openStreams] at hp ⊢
    split at hp
    · split at hp
      · rename_i h1 h2
        rw [if_pos h1, if_pos h2]
        rcases List.mem_cons.1 hp with rfl | hp
        · exact List.mem_cons_self
        · exact List.mem_cons_of_mem _ (ih (i + 1) hp)
      · rename_i h1 h2
        rw [if_pos h1, if_neg h2]
        exact List.mem_cons_of_mem _ (ih (i + 1) hp)
    · rename_i h1
      rw [if_neg h1]
      exact List.mem_cons_of_mem _ (ih (i + 1) hp)

/-- **When the streams close the parent end of every pipe.** -/
theorem all_parentend_mem_iff (hnd : (ds.flatMap DescriptorItem.fds).Nodup) (f : Nat → Bool) :
    (∀ d ∈ ds, d.isPipe = true → some d.parentend ∈ (openStreams f 0 ds).pipes) ↔
      ∀ j d, ds[j]? = some d → d.isPipe = true → f j = true := by
  constructor
  · intro h j d hj hp
    have hd := List.mem_of_getElem? hj
    obtain ⟨k, e, hk, hpe, hf, hpar⟩ := (mem_pipes_iff f 0 _).1 (h d hd hp)
    have hmem : d.parentend ∈ d.fds := (d.mem_fds_iff _).2 (Or.inr ⟨hp, rfl⟩)
    have hmem' : d.parentend ∈ e.fds := (e.mem_fds_iff _).2 (Or.inr ⟨hpe, hpar.symm⟩)
    obtain rfl := eq_of_mem_fds hnd hd (List.mem_of_getElem? hk) hmem hmem'
    -- an item stands in one place only
    obtain ⟨hjl, hjd⟩ := List.getElem?_eq_some_iff.1 hj
    obtain ⟨hkl, hkd⟩ := List.getElem?_eq_some_iff.1 hk
    have hjk : j = k := (nodup_items hnd).getElem_inj_iff.1 (hjd.trans hkd.symm)
    rw [hjk]
    simpa using hf
  · intro h d hd hp
    obtain ⟨j, hj⟩ := List.getElem?_of_mem hd
    exact (mem_pipes_iff f 0 _).2 ⟨j, d, hj, hp, by simpa using h j d hj hp, rfl⟩

end Closed

/-! ## The call -/

/-- What is closed after a call that succeeded: by the `exit` handler, by the script, which closes
the streams in `$pipes`, and by the destructor of the process handle, which closes those of
`proc->pipes`. -/
def Result.closed (r : Result δ) (proc : ProcHandle) : List Int :=
  r.exitFds ++ (r.phpPipes.map Prod.snd ++ proc.pipes.filterMap id)

namespace Call

variable {c : Call δ} {ds : List DescriptorItem}

/-- **What is asked of a call**: if it returns `FALSE` the descriptor table is as before, and if it
succeeds the table is as before once the child has exited, the script has closed the streams in
`$pipes`, and the handle is closed. -/
def Tidy (c : Call δ) (t : FdTable δ) : Prop :=
  match (procOpen c t).ret with
  | none => (procOpen c t).fds = t
  | some proc => (procOpen c t).fds.closeAll ((procOpen c t).closed proc) = t

/-- The keys of the specification are 0, 1 and 2 as far as there are any, each once. -/
structure Standard (c : Call δ) : Prop where
  indices : ∀ n ∈ c.spec.map (·.key.index), n = 0 ∨ n = 1 ∨ n = 2
  distinct : (c.spec.map (·.key.index)).Nodup

/-- **When a call that returns `FALSE` leaves the table as it was**: nothing was acquired, because
of the command, of an empty specification, or of the first entry; or all that was acquired are
child's ends of standard descriptors, and the child exited before PHP noticed that it cannot go
on. -/
def FailsClean (c : Call δ) (t : FdTable δ) : Prop :=
  (∃ stop, (prepareCommand c.command).result = .error stop) ∨ c.spec = [] ∨
    (∃ e, c.spec.head? = some e ∧ e.FailsClean t) ∨
    ((∃ ds, (walk c.spec [] t).result = .ok ds) ∧ (∃ pid, c.spawn = .child pid true) ∧
      c.Standard ∧ ∀ e ∈ c.spec, e.item.isPipe = false)

/-- **When nothing stays open after a call that succeeds**: the keys are standard and every pipe
got its stream. -/
structure Settles (c : Call δ) : Prop extends Standard c where
  streams : ∀ (j : Nat) e, c.spec[j]? = some e → e.item.isPipe = true → c.fopenFromFd j = true

/-- The exit handler closes every child's end just when the keys are standard. -/
theorem standard_iff (hnd : (ds.flatMap DescriptorItem.fds).Nodup)
    (hi : ds.map DescriptorItem.index = c.spec.map (·.key.index)) :
    (∀ d ∈ ds, d.childend ∈ exitFds ds) ↔ c.Standard := by
  rw [all_childend_mem_iff hnd, hi]
  exact ⟨fun h => ⟨h.1, h.2⟩, fun h => ⟨h.indices, h.distinct⟩⟩

/-- No pipe was asked for just when no item is one. -/
theorem forall_isPipe_iff (hp : ds.map DescriptorItem.isPipe = c.spec.map (·.item.isPipe)) :
    (∀ d ∈ ds, d.isPipe = false) ↔ ∀ e ∈ c.spec, e.item.isPipe = false := by
  have h := congrArg (fun l => ∀ b ∈ l, b = false) hp
  simpa only [List.forall_mem_map, eq_iff_iff] using h

/-- The `j`-th item is a pipe just when the `j`-th entry asks for one. -/
theorem forall_streams_iff (hp : ds.map DescriptorItem.isPipe = c.spec.map (·.item.isPipe)) :
    (∀ j d, ds[j]? = some d → d.isPipe = true → c.fopenFromFd j = true) ↔
      ∀ (j : Nat) e, c.spec[j]? = some e → e.item.isPipe = true → c.fopenFromFd j = true := by
  have hj : ∀ j : Nat, (ds[j]?).map DescriptorItem.isPipe =
      (c.spec[j]?).map fun e => e.item.isPipe := by
    intro j
    rw [← List.getElem?_map, ← List.getElem?_map, hp]
  refine forall_congr' fun j => ?_
  have hj := hj j
  cases hd : ds[j]? with
  | none =>
    rw [hd] at hj
    cases he : c.spec[j]? with
    | none => simp
    | some e => rw [he] at hj; cases hj
  | some d =>
    rw [hd] at hj
    cases he : c.spec[j]? with
    | none => rw [he] at hj; cases hj
    | some e =>
      rw [he] at hj
      have hde : d.isPipe = e.item.isPipe := Option.some.inj hj
      simp [hde]

/-- Nothing was opened just when nothing was asked for. -/
theorem opened_eq_iff {t t' : FdTable δ}
    (ho : FdTable.Opened t t' (ds.flatMap DescriptorItem.fds))
    (hi : ds.map DescriptorItem.index = c.spec.map (·.key.index)) : t' = t ↔ c.spec = [] := by
  have hlen : ds.length = c.spec.length := by
    have h := congrArg List.length hi
    simpa only [List.length_map] using h
  rw [ho.eq_iff]
  constructor
  · intro hnil
    cases ds with
    | nil => exact List.eq_nil_of_length_eq_zero hlen.symm
    | cons d ds =>
      have hmem := d.childend_mem
      rw [List.flatMap_cons, List.append_eq_nil_iff] at hnil
      rw [hnil.1] at hmem
      cases hmem
  · intro hspec
    rw [hspec, List.length_nil] at hlen
    rw [List.eq_nil_of_length_eq_zero hlen]
    rfl

/-- The exit handler closes everything just when only child's ends of standard descriptors were
opened. -/
theorem all_fds_mem_exitFds_iff (hnd : (ds.flatMap DescriptorItem.fds).Nodup)
    (hi : ds.map DescriptorItem.index = c.spec.map (·.key.index))
    (hp : ds.map DescriptorItem.isPipe = c.spec.map (·.item.isPipe)) :
    (∀ x ∈ ds.flatMap DescriptorItem.fds, x ∈ exitFds ds) ↔
      c.Standard ∧ ∀ e ∈ c.spec, e.item.isPipe = false := by
  rw [← standard_iff hnd hi, ← forall_isPipe_iff hp]
  constructor
  · intro h
    refine ⟨fun d hd => h _ (List.mem_flatMap.2 ⟨d, hd, d.childend_mem⟩), fun d hd => ?_⟩
    by_contra hpipe
    have hpipe : d.isPipe = true := by simpa using hpipe
    have hmem := (d.mem_fds_iff d.parentend).2 (Or.inr ⟨hpipe, rfl⟩)
    exact parentend_notMem_exitFds hnd hd hpipe (h _ (List.mem_flatMap.2 ⟨d, hd, hmem⟩))
  · rintro ⟨hchild, hpipe⟩ x hx
    obtain ⟨d, hd, hxd⟩ := List.mem_flatMap.1 hx
    rcases (d.mem_fds_iff x).1 hxd with rfl | ⟨htrue, -⟩
    · exact hchild d hd
    · rw [hpipe d hd] at htrue
      cases htrue

/-- **A child that was not spawned, or a `$pipes` that could not be set up.** -/
theorem notStarted_fds_iff {t t' : FdTable δ}
    (ho : FdTable.Opened t t' (ds.flatMap DescriptorItem.fds))
    (hi : ds.map DescriptorItem.index = c.spec.map (·.key.index))
    (hp : ds.map DescriptorItem.isPipe = c.spec.map (·.item.isPipe)) :
    (jsOpenProcess ds c.spawn t').2 = t ↔ c.spec = [] ∨ ((∃ pid, c.spawn = .child pid true) ∧
      c.Standard ∧ ∀ e ∈ c.spec, e.item.isPipe = false) := by
  have hempty := opened_eq_iff ho hi
  cases hs : c.spawn with
  | refused => simp [jsOpenProcess, hempty]
  | child pid exited =>
    cases exited with
    | false => simp [jsOpenProcess, hempty]
    | true =>
      rw [jsOpenProcess, if_pos rfl, ho.closeAll_eq_iff fun x => mem_of_mem_exitFds,
        all_fds_mem_exitFds_iff ho.nodup hi hp]
      constructor
      · exact fun h => Or.inr ⟨⟨pid, rfl⟩, h⟩
      · rintro (hnil | ⟨-, h⟩)
        · have hno : ∀ e ∈ c.spec, e.item.isPipe = false := by simp [hnil]
          exact ⟨⟨by simp [hnil], by simp [hnil]⟩, hno⟩
        · exact h

/-- Once the child has exited it makes no difference whether it did so early. -/
theorem closeAll_jsOpenProcess (spawn : Spawn) (t : FdTable δ) (l : List Int) :
    (jsOpenProcess ds spawn t).2.closeAll (exitFds ds ++ l) = t.closeAll (exitFds ds ++ l) := by
  unfold jsOpenProcess
  split
  · rfl
  · split
    · refine FdTable.ext (by simp) (funext fun x => ?_)
      simp only [FdTable.get_closeAll, List.mem_append]
      by_cases hx : x ∈ exitFds ds <;> simp [hx]
    · rfl

/-- The streams in `$pipes` are among those of `proc->pipes`. -/
theorem mem_streams_iff (f : Nat → Bool) (x : Int) :
    x ∈ (openStreams f 0 ds).phpPipes.map Prod.snd ++ (openStreams f 0 ds).pipes.filterMap id ↔
      some x ∈ (openStreams f 0 ds).pipes := by
  rw [List.mem_append, List.mem_map, List.mem_filterMap]
  constructor
  · rintro (⟨p, hp, rfl⟩ | ⟨o, ho, rfl⟩)
    · exact phpPipes_subset _ _ p hp
    · exact ho
  · exact fun h => Or.inr ⟨some x, h, rfl⟩

/-- The exit handler and the streams close everything just when the handler closes every child's
end and every pipe has a stream. -/
theorem all_fds_mem_closed_iff (hnd : (ds.flatMap DescriptorItem.fds).Nodup) (f : Nat → Bool) :
    (∀ x ∈ ds.flatMap DescriptorItem.fds, x ∈ exitFds ds ++
      ((openStreams f 0 ds).phpPipes.map Prod.snd ++ (openStreams f 0 ds).pipes.filterMap id)) ↔
      (∀ d ∈ ds, d.childend ∈ exitFds ds) ∧
        ∀ d ∈ ds, d.isPipe = true → some d.parentend ∈ (openStreams f 0 ds).pipes := by
  constructor
  · intro h
    refine ⟨fun d hd => ?_, fun d hd hpipe => ?_⟩
    · rcases List.mem_append.1 (h _ (List.mem_flatMap.2 ⟨d, hd, d.childend_mem⟩)) with hx | hx
      · exact hx
      · -- a child's end is nobody's parent end
        obtain ⟨j, e, hj, hpe, -, hpar⟩ :=
          (mem_pipes_iff _ 0 _).1 ((mem_streams_iff f _).1 hx)
        have hmem : d.childend ∈ e.fds := (e.mem_fds_iff _).2 (Or.inr ⟨hpe, hpar.symm⟩)
        obtain rfl := eq_of_mem_fds hnd hd (List.mem_of_getElem? hj) d.childend_mem hmem
        exact absurd hpar.symm (childend_ne_parentend hnd hd hpe)
    · have hmem := (d.mem_fds_iff d.parentend).2 (Or.inr ⟨hpipe, rfl⟩)
      rcases List.mem_append.1 (h _ (List.mem_flatMap.2 ⟨d, hd, hmem⟩)) with hx | hx
      · exact absurd hx (parentend_notMem_exitFds hnd hd hpipe)
      · exact (mem_streams_iff f _).1 hx
  · rintro ⟨hchild, hparent⟩ x hx
    obtain ⟨d, hd, hxd⟩ := List.mem_flatMap.1 hx
    rcases (d.mem_fds_iff x).1 hxd with rfl | ⟨hpipe, rfl⟩
    · exact List.mem_append_left _ (hchild d hd)
    · exact List.mem_append_right _ ((mem_streams_iff f _).2 (hparent d hd hpipe))

/-- **After a call that succeeded.** -/
theorem started_closed_iff {t t' : FdTable δ}
    (ho : FdTable.Opened t t' (ds.flatMap DescriptorItem.fds))
    (hi : ds.map DescriptorItem.index = c.spec.map (·.key.index))
    (hp : ds.map DescriptorItem.isPipe = c.spec.map (·.item.isPipe)) :
    (jsOpenProcess ds c.spawn t').2.closeAll (exitFds ds ++
        ((openStreams c.fopenFromFd 0 ds).phpPipes.map Prod.snd ++
          (openStreams c.fopenFromFd 0 ds).pipes.filterMap id)) = t ↔ c.Settles := by
  have hsub : ∀ x ∈ exitFds ds ++ ((openStreams c.fopenFromFd 0 ds).phpPipes.map Prod.snd ++
      (openStreams c.fopenFromFd 0 ds).pipes.filterMap id), x ∈ ds.flatMap DescriptorItem.fds := by
    intro x hx
    rcases List.mem_append.1 hx with hx | hx
    · exact mem_of_mem_exitFds hx
    · obtain ⟨j, d, hj, hpipe, -, rfl⟩ := (mem_pipes_iff _ 0 x).1 ((mem_streams_iff _ x).1 hx)
      exact List.mem_flatMap.2
        ⟨d, List.mem_of_getElem? hj, (d.mem_fds_iff _).2 (Or.inr ⟨hpipe, rfl⟩)⟩
  rw [closeAll_jsOpenProcess, ho.closeAll_eq_iff hsub, all_fds_mem_closed_iff ho.nodup,
    standard_iff ho.nodup hi, all_parentend_mem_iff ho.nodup, forall_streams_iff hp]
  exact ⟨fun h => ⟨h.1, h.2⟩, fun h => ⟨h.toStandard, h.streams⟩⟩

/-- **When `proc_open` takes care of its descriptors**, for every command, every specification and
everything the calls it makes can answer. -/
theorem tidy_iff (c : Call δ) (t : FdTable δ) :
    c.Tidy t ↔ ((procOpen c t).ret = none → c.FailsClean t) ∧
      ((procOpen c t).ret ≠ none → c.Settles) := by
  rw [Tidy]
  cases hc : (prepareCommand c.command).result with
  | error stop =>
    have hclean : c.FailsClean t := Or.inl ⟨stop, hc⟩
    cases stop with
    | returnFalse => simp [procOpen_of_noCommand hc, returnFalse, hclean]
    | exitFail => simp [procOpen_of_badCommand hc, returnFalse, hclean]
  | ok strs =>
    have hcmd : ¬ ∃ stop, (prepareCommand c.command).result = .error stop := by
      rintro ⟨stop, h⟩
      rw [hc] at h
      cases h
    cases hw : (walk c.spec [] t).result with
    | error stop =>
      have hclean : (walk c.spec [] t).fds = t ↔ c.FailsClean t := by
        cases hspec : c.spec with
        | nil => rw [hspec] at hw; cases hw
        | cons e es =>
          rw [hspec] at hw
          rw [walk_error_fds_iff hw, FailsClean, hspec, hw]
          simp [hc]
      cases stop with
      | returnFalse => simp [procOpen_of_noStream hc hw, returnFalse, hclean]
      | exitFail => simp [procOpen_of_badEntry hc hw, returnFalse, hclean]
    | ok ds =>
      obtain ⟨ho, hi, hp⟩ := walk_ok hw
      by_cases hn : c.NotStarted ds (walk c.spec [] t).fds
      · obtain ⟨ws, heq⟩ := procOpen_of_notStarted hc hw hn
        have hhead : ¬ ∃ e, c.spec.head? = some e ∧ e.FailsClean t := by
          rintro ⟨e, he, hclean⟩
          obtain ⟨es, hspec⟩ := List.head?_eq_some_iff.1 he
          rw [hspec] at hw
          exact not_failsClean_of_walk_ok hw hclean
        rw [heq]
        simp only [returnFalse, ne_eq, not_true_eq_false, false_imp_iff, and_true, true_imp_iff]
        rw [notStarted_fds_iff ho hi hp, FailsClean]
        simp [hc, hw, hhead]
      · have heq := procOpen_of_started hc hw hn
        rw [heq]
        simp only [ne_eq, reduceCtorEq, not_false_eq_true, false_imp_iff, true_and, true_imp_iff]
        exact started_closed_iff ho hi hp

end Call

/-- Calls that all work. -/
def allWork : Attempt Nat := ⟨some (3, 4), true, some 5, .castable 6, []⟩

/-- A pipe for the child's input, and an entry of an unknown type. -/
def pipeThenUnknown : Call Nat where
  command := .string (bytes "cat")
  spec :=
    [⟨.int 0, .array (some (.string (bytes "pipe"))) (some (.string (bytes "r"))) none, allWork⟩,
     ⟨.int 1, .array (some (.string (bytes "socket"))) none none, allWork⟩]
  spawn := .child 7 false
  pipesInit := true
  fopenFromFd _ := true
  strerror := []

/-- A table with the three standard descriptors. -/
def standardFds : FdTable Nat := (((FdTable.empty 8).set 0 0).set 1 1).set 2 2

/-- The call returns `FALSE` and both ends of the pipe stay open. -/
theorem pipeThenUnknown_not_tidy : (procOpen pipeThenUnknown standardFds).ret.isNone = true ∧
    ¬ pipeThenUnknown.Tidy standardFds := by
  refine ⟨by decide, fun h => ?_⟩
  have hfds : (procOpen pipeThenUnknown standardFds).fds = standardFds := h
  have hopen : ((procOpen pipeThenUnknown standardFds).fds.get 3).isSome = true := by decide
  rw [hfds] at hopen
  exact absurd hopen (by decide)

end PhpWasm.Process
