import PhpWasm.Base.Assignments
import PhpWasm.Sapi.Request

/-!
# The variables a request is given

JavaScript hands PHP two lists of variables, `wasm_add_ENV_entry` by `wasm_add_ENV_entry` and
`wasm_add_SERVER_entry` by `wasm_add_SERVER_entry`.  Both are kept newest entry first, and this
file compares what PHP gets to see of them with the calls that were made.

A key may be given more than one value, and the last call is the one that should count.  The
readers of the lists do not all see it that way: `wasm_sapi_getenv` takes the first entry it comes
to, which is the newest, while `run_cli` and `wasm_sapi_register_server_variables` assign each
entry in turn, so that the oldest prevails.
-/

set_option autoImplicit false

namespace PhpWasm

open Memory Assignments

variable {δ : Type*}

/-! ## A context that has been filled in -/

/-- The key and value a setter adds to the environment. -/
def Setter.envPair : Setter → Option (CString × CString)
  | addEnvEntry k v => some (k, v)
  | _ => none

/-- The key and value a setter adds to `$_SERVER`. -/
def Setter.serverPair : Setter → Option (CString × CString)
  | addServerEntry k v => some (k, v)
  | _ => none

/-- The entries of a list of calls, in the order of the calls. -/
def envAdded (xs : List Setter) : List (CString × CString) := xs.filterMap Setter.envPair

/-- The entries of a list of calls, in the order of the calls. -/
def serverAdded (xs : List Setter) : List (CString × CString) := xs.filterMap Setter.serverPair

/-- The SAPI after the calls `xs`, in a request that starts from the default context. -/
def Sapi.filled (s : Sapi δ) (xs : List Setter) : Sapi δ :=
  Machine.run Sapi.step { s with mem := ⟨s.mem.heap, wasmInitServerContext⟩ } (xs.map .set)

/-- The values that the calls `xs` are supposed to leave. -/
def setValues (v : ServerContext CString) (xs : List Setter) : ServerContext CString :=
  xs.foldl (fun v x => x.set v) v

/-- A list entry as a value. -/
def valueEntry (e : CString × CString) : Entry CString := ⟨[], e.1, e.2⟩

theorem run_set_holds {s : Sapi δ} {v : ServerContext CString} (h : s.mem.Holds v)
    (xs : List Setter) : (Machine.run Sapi.step s (xs.map .set)).mem.Holds (setValues v xs) := by
  induction xs generalizing s v with
  | nil => exact h
  | cons x xs ih => exact ih (holds_apply h x)

theorem filled_holds (s : Sapi δ) (xs : List Setter) :
    (s.filled xs).mem.Holds (setValues wasmInitServerContext xs) :=
  run_set_holds (holds_init _) xs

/-- A list of the context that each setter prepends at most one entry to ends up with the entries of
the calls, newest first. -/
theorem setValues_entries (get : ServerContext CString → List (Entry CString))
    (pair : Setter → Option (CString × CString))
    (h : ∀ x v, get (x.set v) = (pair x).toList.map valueEntry ++ get v)
    (v : ServerContext CString) (xs : List Setter) :
    get (setValues v xs) = (xs.filterMap pair).reverse.map valueEntry ++ get v := by
  induction xs generalizing v with
  | nil => rfl
  | cons x xs ih =>
    rw [setValues, List.foldl_cons, ← setValues, ih, h]
    cases hx : pair x <;> simp [hx]

theorem setValues_envArrayEntries (v : ServerContext CString) (xs : List Setter) :
    (setValues v xs).envArrayEntries =
      (envAdded xs).reverse.map valueEntry ++ v.envArrayEntries :=
  setValues_entries (·.envArrayEntries) Setter.envPair (fun x _ => by cases x <;> rfl) v xs

theorem filled_envArrayEntries (s : Sapi δ) (xs : List Setter) :
    List.Forall₂ (Entry.Rel fun p v => (s.filled xs).mem.heap.read p = some v)
      (s.filled xs).mem.context.envArrayEntries ((envAdded xs).reverse.map valueEntry) := by
  have h := (filled_holds s xs).envArrayEntries
  rwa [setValues_envArrayEntries, wasmInitServerContext, List.append_nil] at h

/-! ## `getenv` and `putenv` -/

/-- A string that can name an environment variable. -/
def IsName (k : CString) : Prop := k ≠ [] ∧ '='.toNat.toUInt8 ∉ k

instance (k : CString) : Decidable (IsName k) := inferInstanceAs (Decidable (_ ∧ _))

/-- The string `key=value`. -/
def assignment (key value : CString) : CString := key ++ bytes "=" ++ value

/-- C's `getenv`: what stands behind the `=` of the first string that begins with `name=`. -/
def getenv (name : CString) (environ : List CString) : Option CString :=
  if name = [] ∨ '='.toNat.toUInt8 ∈ name then none
  else (environ.find? fun e => (name ++ bytes "=").isPrefixOf e).map fun e =>
    e.drop (name.length + 1)

theorem bytes_eqSign : bytes "=" = ['='.toNat.toUInt8] := by decide

theorem envName_assignment {k : CString} (hk : IsName k) (v : CString) :
    envName (assignment k v) = k := by
  have hall : ∀ b ∈ k, (b != '='.toNat.toUInt8) = true := fun b hb =>
    bne_iff_ne.2 fun h => hk.2 (h ▸ hb)
  rw [envName, assignment, bytes_eqSign, List.append_assoc, List.takeWhile_append_of_pos hall]
  simp

theorem assignment_ne {k : CString} (v : CString) : k ≠ assignment k v := fun h => by
  have := congrArg List.length h
  simp [assignment, bytes_eqSign] at this

/-- A string that begins with `name=` has the name `name`. -/
theorem envName_of_isPrefixOf {k e : CString} (hk : IsName k)
    (h : (k ++ bytes "=").isPrefixOf e = true) : envName e = k := by
  obtain ⟨v, rfl⟩ := List.isPrefixOf_iff_prefix.1 h
  exact envName_assignment hk v

/-- `putenv` of an assignment, one string of the environment at a time. -/
theorem putenv_assignment_cons {k : CString} (hk : IsName k) (v e : CString)
    (environ : List CString) :
    putenv (assignment k v) (e :: environ) =
      if envName e = k then assignment k v :: environ
      else e :: putenv (assignment k v) environ := by
  simp only [putenv, envName_assignment hk, hk.1, assignment_ne v, if_false, List.findIdx?_cons,
    beq_iff_eq]
  by_cases he : envName e = k
  · simp [he]
  · simp only [he, if_false]
    cases environ.findIdx? fun e => envName e == k <;> rfl

theorem putenv_assignment_nil {k : CString} (hk : IsName k) (v : CString) :
    putenv (assignment k v) [] = [assignment k v] := by
  simp [putenv, envName_assignment hk, hk.1, assignment_ne v]

/-- Reading an environment one string at a time. -/
theorem getenv_cons {name : CString} (hn : IsName name) (e : CString) (environ : List CString) :
    getenv name (e :: environ) =
      if (name ++ bytes "=").isPrefixOf e then some (e.drop (name.length + 1))
      else getenv name environ := by
  simp only [getenv, hn.1, hn.2, or_self, if_false, List.find?_cons]
  split <;> rename_i h <;> simp [h]

theorem getenv_assignment_cons {name k : CString} (hn : IsName name) (hk : IsName k)
    (v : CString) (environ : List CString) :
    getenv name (assignment k v :: environ) =
      if name = k then some v else getenv name environ := by
  rw [getenv_cons hn]
  by_cases hnk : name = k
  · subst hnk
    have hpre : (name ++ bytes "=").isPrefixOf (assignment name v) = true :=
      List.isPrefixOf_iff_prefix.2 ⟨v, rfl⟩
    rw [if_pos hpre, if_pos rfl, assignment, bytes_eqSign]
    simp
  · have hpre : ¬ (name ++ bytes "=").isPrefixOf (assignment k v) = true := fun h =>
      hnk ((envName_of_isPrefixOf hn h).symm.trans (envName_assignment hk v))
    rw [if_neg hpre, if_neg hnk]

/-- **What `putenv` assigns is what `getenv` reads**, and no other name is affected. -/
theorem getenv_putenv (k v : CString) (environ : List CString) (name : CString) (hk : IsName k) :
    getenv name (putenv (assignment k v) environ) =
      if name = k then some v else getenv name environ := by
  by_cases hn : IsName name
  · induction environ with
    | nil => rw [putenv_assignment_nil hk, getenv_assignment_cons hn hk]
    | cons e environ ih =>
      rw [putenv_assignment_cons hk]
      by_cases he : envName e = k
      · rw [if_pos he, getenv_assignment_cons hn hk, getenv_cons hn]
        by_cases hnk : name = k
        · rw [if_pos hnk, if_pos hnk]
        · have hpre : ¬ (name ++ bytes "=").isPrefixOf e = true := fun h =>
            hnk ((envName_of_isPrefixOf hn h).symm.trans he)
          rw [if_neg hpre]
      · rw [if_neg he, getenv_cons hn, ih, getenv_cons hn]
        by_cases hnk : name = k
        · have hpre : ¬ (name ++ bytes "=").isPrefixOf e = true := fun h =>
            he ((envName_of_isPrefixOf hn h).trans hnk)
          rw [if_pos hnk, if_neg hpre, if_pos hnk]
        · rw [if_neg hnk, if_neg hnk]
  · have hnone : ∀ environ, getenv name environ = none := fun environ => by
      rw [getenv, if_pos (by by_contra hc; exact hn (not_or.1 hc))]
    have hne : name ≠ k := fun h => hn (by rwa [h])
    rw [hnone, hnone, if_neg hne]

/-! ## The two views of the environment -/

theorem wasmSapiGetenv_values (name : CString) (n : Nat) (l : List (CString × CString)) :
    wasmSapiGetenv some name n (l.map valueEntry) =
      some ((l.find? fun e => strncmpEq e.1 name n).map Prod.snd) := by
  induction l with
  | nil => rfl
  | cons e l ih =>
    rw [List.map_cons, wasmSapiGetenv, ih, List.find?_cons]
    cases h : strncmpEq e.1 name n <;> simp [valueEntry, h]

theorem strncmpEq_length (k name : CString) :
    strncmpEq k name name.length = name.isPrefixOf k := by
  rw [strncmpEq, List.take_length, Bool.eq_iff_iff, beq_iff_eq, List.isPrefixOf_iff_prefix,
    List.prefix_iff_eq_take, eq_comm]

/-- `wasm_sapi_getenv` in a filled context: the newest entry whose key *starts* with the name. -/
theorem wasmSapiGetenv_filled (s : Sapi δ) (xs : List Setter) (name : CString) :
    wasmSapiGetenv (s.filled xs).mem.heap.read name name.length
        (s.filled xs).mem.context.envArrayEntries =
      some (((envAdded xs).reverse.find? fun e => name.isPrefixOf e.1).map Prod.snd) := by
  rw [wasmSapiGetenv_rel (fun _ _ h => h) name name.length (filled_envArrayEntries s xs),
    wasmSapiGetenv_values]
  simp only [strncmpEq_length]

/-- The export loop of `run_cli`, over entries that hold the values `l`. -/
theorem putenvEntries_values {h : Heap CString} {entries : List (Entry Ptr)}
    {l : List (CString × CString)}
    (hl : List.Forall₂ (Entry.Rel fun p v => h.read p = some v) entries (l.map valueEntry))
    (environ : List CString) :
    putenvEntries h true entries environ =
      ([], l.foldl (fun environ e => putenv (assignment e.1 e.2) environ) environ) := by
  induction l generalizing entries environ with
  | nil =>
    obtain rfl := List.forall₂_nil_right_iff.1 hl
    rfl
  | cons e l ih =>
    obtain ⟨p, rest, he, hrest, rfl⟩ := List.forall₂_cons_right_iff.1 hl
    have hp : envString h p true = assignment e.1 e.2 := by
      simp [envString, assignment, he.key, he.value, valueEntry]
    rw [putenvEntries, hp, ih hrest, List.foldl_cons]

namespace Sapi

/-- The environment `run_cli` hands to `main`; `none` when it gives up before that. -/
def exported (c : CliRun δ) (s : Sapi δ) : Option (List CString) :=
  if (s.redirect c.streams).NotRedirected then none
  else some (putenvEntries s.mem.heap true s.mem.context.envArrayEntries s.environ).2

/-- In the exported environment the *oldest* entry of a name counts. -/
theorem getenv_exported {c : CliRun δ} {s : Sapi δ} {xs : List Setter}
    (hkeys : ∀ e ∈ envAdded xs, IsName e.1) (name : CString) {environ : List CString}
    (he : (s.filled xs).exported c = some environ) :
    getenv name environ = (first name (envAdded xs)).or (getenv name (s.filled xs).environ) := by
  rw [exported] at he
  split at he
  · cases he
  · rw [putenvEntries_values (filled_envArrayEntries s xs), Option.some_inj] at he
    rw [← he, ← last_reverse name (envAdded xs)]
    exact look_foldl (fun environ k => getenv k environ)
      (fun k v environ => putenv (assignment k v) environ)
      (fun k v environ name hk => getenv_putenv k v environ name hk)
      (fun e he => hkeys e (List.mem_reverse.1 he)) _ _

/-- The second loop of `run_cli` changes nothing: what `main` leaves is what is left. -/
theorem runCli_environ {c : CliRun δ} {s : Sapi δ} {xs : List Setter} {environ : List CString}
    (he : (s.filled xs).exported c = some environ) :
    ((s.filled xs).runCli c).2.environ = (c.main (s.filled xs).cliArgv.reverse environ).2 := by
  rw [exported] at he
  split at he
  · cases he
  · rename_i hr
    rw [putenvEntries_values (filled_envArrayEntries s xs), Option.some_inj] at he
    have hmem : ((s.filled xs).redirect c.streams).mem = (s.filled xs).mem := rfl
    have henv : ((s.filled xs).redirect c.streams).environ = (s.filled xs).environ := rfl
    simp only [runCli, hr, if_false, hmem, henv,
      putenvEntries_values (filled_envArrayEntries s xs), he]
    rfl

end Sapi

/-- **The environment is served**: for `name`, both views give the value added last, and `run_cli`
takes back what it exported. -/
structure EnvironmentServed (c : CliRun δ) (s : Sapi δ) (added : List (CString × CString))
    (name : CString) : Prop where
  /-- `wasm_sapi_getenv` answers the value added last for exactly this name. -/
  sapi : wasmSapiGetenv s.mem.heap.read name name.length s.mem.context.envArrayEntries =
    some (last name added)
  /-- So does `getenv` in the environment `run_cli` exports. -/
  cli : ∀ environ ∈ s.exported c, getenv name environ = last name added
  /-- After `run_cli` a name that was exported does not carry the exported value. -/
  cleared : ∀ environ ∈ s.exported c, (∃ v, (name, v) ∈ added) →
    getenv name (s.runCli c).2.environ ≠ getenv name environ

/-- The calls and the run of `main` for which that works out. -/
structure EnvironmentSimple (c : CliRun δ) (s : Sapi δ) (added : List (CString × CString))
    (name : CString) : Prop where
  /-- The last key that starts with `name` comes with the value added last for `name`. -/
  notShadowed : ∀ l e l', added = l ++ e :: l' → name <+: e.1 → (∀ x ∈ l', ¬ name <+: x.1) →
    last name added = some e.2
  /-- The first value of the name is the last one, and a name without one is not in the
  environment of the process either. -/
  sameValue : ∀ environ ∈ s.exported c, first name added = last name added ∧
    (first name added = none → getenv name s.environ = none)
  /-- `main` itself gives the name another value, or none. -/
  changed : ∀ environ ∈ s.exported c, ∀ v, first name added = some v →
    getenv name (c.main s.cliArgv.reverse environ).2 ≠ some v

theorem not_isPrefixOf_iff {a b : CString} : (!a.isPrefixOf b) = true ↔ ¬ a <+: b := by
  rw [Bool.not_eq_true', ← Bool.not_eq_true, List.isPrefixOf_iff_prefix]

/-- The newest entry whose key starts with the name is the right one exactly when no other entry
shadows it. -/
theorem newest_eq_last_iff {name : CString} {added : List (CString × CString)} :
    (added.reverse.find? fun e => name.isPrefixOf e.1).map Prod.snd = last name added ↔
      ∀ l e l', added = l ++ e :: l' → name <+: e.1 → (∀ x ∈ l', ¬ name <+: x.1) →
        last name added = some e.2 := by
  constructor
  · rintro h l e l' rfl he hl'
    have hfind : ((l ++ e :: l').reverse.find? fun e => name.isPrefixOf e.1) = some e := by
      refine List.find?_eq_some_iff_append.2 ⟨List.isPrefixOf_iff_prefix.2 he, l'.reverse,
        l.reverse, by simp, fun x hx => ?_⟩
      exact not_isPrefixOf_iff.2 (hl' x (List.mem_reverse.1 hx))
    rw [← h, hfind, Option.map_some]
  · intro h
    cases hfind : added.reverse.find? fun e => name.isPrefixOf e.1 with
    | none =>
      refine (last_eq_none_iff.2 fun e he hname => ?_).symm
      have := List.find?_eq_none.1 hfind e (List.mem_reverse.2 he)
      exact this (List.isPrefixOf_iff_prefix.2 (hname ▸ List.prefix_rfl))
    | some e =>
      obtain ⟨he, l', l, hl, hl'⟩ := List.find?_eq_some_iff_append.1 hfind
      refine (h l.reverse e l'.reverse ?_ (List.isPrefixOf_iff_prefix.1 he) ?_).symm
      · simpa using congrArg List.reverse hl
      · exact fun x hx => not_isPrefixOf_iff.1 (hl' x (List.mem_reverse.1 hx))

theorem mem_added_iff {name : CString} {added : List (CString × CString)} :
    (∃ v, (name, v) ∈ added) ↔ first name added ≠ none := by
  rw [Ne, first_eq_none_iff]
  push Not
  exact ⟨fun ⟨v, hv⟩ => ⟨_, hv, rfl⟩, fun ⟨e, he, hn⟩ => ⟨e.2, hn ▸ he⟩⟩

/-- **When the environment is served.** -/
theorem environmentServed_iff (c : CliRun δ) (s : Sapi δ) {xs : List Setter}
    (hkeys : ∀ e ∈ envAdded xs, IsName e.1) (name : CString) :
    EnvironmentServed c (s.filled xs) (envAdded xs) name ↔
      EnvironmentSimple c (s.filled xs) (envAdded xs) name := by
  have hsapi := wasmSapiGetenv_filled s xs name
  constructor
  · intro h
    refine ⟨newest_eq_last_iff.1 (Option.some_inj.1 (hsapi.symm.trans h.sapi)),
      fun environ he => ?_, fun environ he v hv => ?_⟩
    · have hcli := h.cli environ he
      rw [Sapi.getenv_exported hkeys name he] at hcli
      cases hf : first name (envAdded xs) with
      | none =>
        have hl := first_eq_none_iff_last.1 hf
        rw [hf, hl, Option.none_or] at hcli
        exact ⟨hl.symm, fun _ => hcli⟩
      | some v =>
        rw [hf, Option.some_or] at hcli
        exact ⟨hcli, fun hc => by cases hc⟩
    · have hne := h.cleared environ he (mem_added_iff.2 (by rw [hv]; exact Option.some_ne_none v))
      rwa [Sapi.runCli_environ he, Sapi.getenv_exported hkeys name he, hv, Option.some_or] at hne
  · intro h
    refine ⟨hsapi.trans (congrArg some (newest_eq_last_iff.2 h.notShadowed)),
      fun environ he => ?_, fun environ he hadded => ?_⟩
    · obtain ⟨hfl, hnone⟩ := h.sameValue environ he
      rw [Sapi.getenv_exported hkeys name he, ← hfl]
      cases hf : first name (envAdded xs) with
      | none => exact hnone hf
      | some v => rfl
    · obtain ⟨v, hv⟩ := Option.ne_none_iff_exists'.1 (mem_added_iff.1 hadded)
      rw [Sapi.runCli_environ he, Sapi.getenv_exported hkeys name he, hv, Option.some_or]
      exact h.changed environ he v hv

/-- A CLI run whose files open, with the given `main`. -/
def cliRun (main : List CString → List CString → Int × List CString) : CliRun Nat :=
  ⟨plainRequest.streams, main⟩

/-- A key that starts with the name, a name with two values, and a `main` that leaves the
environment alone: each is enough for the environment not to be served. -/
theorem environment_not_served :
    let c := cliRun fun _ environ => (0, environ)
    let s := Sapi.start stdioTable
    let ab := [Setter.addEnvEntry (bytes "AB") (bytes "1")]
    let twice := [Setter.addEnvEntry (bytes "A") (bytes "1"), .addEnvEntry (bytes "A") (bytes "2")]
    wasmSapiGetenv (s.filled ab).mem.heap.read (bytes "A") 1
        (s.filled ab).mem.context.envArrayEntries = some (some (bytes "1")) ∧
      ¬ EnvironmentServed c (s.filled ab) (envAdded ab) (bytes "A") ∧
      ((s.filled twice).exported c).map (getenv (bytes "A")) = some (some (bytes "1")) ∧
      ¬ EnvironmentServed c (s.filled twice) (envAdded twice) (bytes "A") ∧
      ((s.filled ab).runCli c).2.environ = [bytes "AB=1"] ∧
      ¬ EnvironmentServed c (s.filled ab) (envAdded ab) (bytes "AB") := by
  refine ⟨by decide, fun h => ?_, by decide, fun h => ?_, by decide, fun h => ?_⟩
  · exact absurd h.sapi (by decide)
  · exact absurd (h.cli _ rfl) (by decide)
  · exact h.cleared _ rfl ⟨bytes "1", by decide⟩ (by decide)

/-- With one value a name, no key that starts with it added later and a `main` that unsets it, the
environment is served. -/
theorem environment_served :
    let s := Sapi.start stdioTable
    let xs := [Setter.addEnvEntry (bytes "ABC") (bytes "1"), .addEnvEntry (bytes "AB") (bytes "2")]
    EnvironmentServed (cliRun fun _ environ => (0, putenv (bytes "AB") environ)) (s.filled xs)
      (envAdded xs) (bytes "AB") := by
  refine (environmentServed_iff _ _ (by decide) _).2 ⟨newest_eq_last_iff.1 (by decide), ?_, ?_⟩
  · rintro environ ⟨rfl⟩
    exact ⟨by decide, fun h => absurd h (by decide)⟩
  · rintro environ ⟨rfl⟩ v -
    have hnone : getenv (bytes "AB") (putenv (bytes "AB") [bytes "AB=2", bytes "ABC=1"]) =
        none := by decide
    exact fun h => Option.some_ne_none v (h.symm.trans hnone)

/-! ## `$_SERVER`

`php_register_variable` belongs to PHP.  `TrackVars` is what is relied on of it: it stores a plain
key as it is, over the value the key had. -/

/-- The keys `wasm_sapi_register_server_variables` registers on its own. -/
def sapiKeys : List CString :=
  ["REQUEST_URI", "SCRIPT_NAME", "SCRIPT_FILENAME", "PHP_SELF", "argv", "SERVER_SOFTWARE",
    "SERVER_PORT", "SERVER_NAME", "HTTP_HOST", "REQUEST_METHOD", "QUERY_STRING"].map bytes

/-- An array of variables, and how PHP registers a variable in it. -/
structure TrackVars (A : Type*) where
  /-- `php_register_variable` -/
  register : CString → CString → A → A
  /-- The value of a key. -/
  get : A → CString → Option CString
  /-- Keys that are stored as they are. -/
  Plain : CString → Prop
  /-- A plain key is overwritten, and no other key changes. -/
  get_register : ∀ k v a k', Plain k →
    get (register k v a) k' = if k' = k then some v else get a k'
  /-- The SAPI's own keys are plain. -/
  plain_sapiKeys : ∀ k ∈ sapiKeys, Plain k

/-- The string a field of the context points to. -/
def Mem.value (m : Mem) (f : Field) : Option CString := (m.context.str f).bind m.heap.read

/-- The `$_SERVER` array that `wasm_sapi_register_server_variables` leaves, from the array that
`php_import_environment_variables` left. -/
def serverArray {A : Type*} (T : TrackVars A) (imported : A) (m : Mem) : Option A :=
  (wasmSapiRegisterServerVariables m.heap.read [] m.context m.context.info).map fun r =>
    r.registered.foldl (fun a e => T.register e.1 e.2 a) imported

/-- The keys that name the script relative to the document root. -/
def scriptKeys : List CString := [bytes "PHP_SELF", bytes "SCRIPT_NAME"]

/-- What the script is called: the part of the path behind the document root, when the root is made
of whole components of the path, and the request URI otherwise. -/
def scriptPath (root path uri : Option CString) : Option CString :=
  match root, path with
  | some r, some p => if r ++ bytes "/" <+: p then some (p.drop r.length) else uri
  | _, _ => uri

section serverArray

variable {A : Type*} (T : TrackVars A) (imported : A)

/-- **`$_SERVER` is right**: every key that was added has the value of its last call, and the keys
that name the script are derived from the document root, unless they were added. -/
structure ServerArrayRight (m : Mem) (added : List (CString × CString)) (a : A) : Prop where
  /-- The last call for a key counts. -/
  lastCall : ∀ k, (∃ v, (k, v) ∈ added) → T.get a k = last k added
  /-- The document root PHP sees is the one the script's name is derived from. -/
  documentRoot : (∃ v, (bytes "DOCUMENT_ROOT", v) ∈ added) →
    T.get a (bytes "DOCUMENT_ROOT") = m.value .documentRoot
  /-- The script's name; without a request URI there may be none, and the key is left alone. -/
  script : ∀ k ∈ scriptKeys, (¬ ∃ v, (k, v) ∈ added) →
    T.get a k = (scriptPath (m.value .documentRoot) (m.value .pathTranslated)
      (m.value .requestUri)).or (T.get imported k)

/-- The calls for which that works out. -/
structure ServerArraySimple (m : Mem) (added : List (CString × CString)) : Prop where
  /-- The first call for a key brings the same value as the last. -/
  sameValue : ∀ k, first k added = last k added
  /-- A document root that the path begins with is followed by a slash there; or else what follows
  happens to be the request URI. -/
  wholeComponents : ∀ k ∈ scriptKeys, (¬ ∃ v, (k, v) ∈ added) → ∀ r p,
    m.value .documentRoot = some r → m.value .pathTranslated = some p → r <+: p →
      ¬ r ++ bytes "/" <+: p →
        (m.value .requestUri).or (T.get imported k) = some (p.drop r.length)

end serverArray

theorem Mem.Holds.value {m : Mem} {v : ServerContext CString} (h : m.Holds v) (f : Field) :
    m.value f = v.str f := by
  have hf := h.str f
  rw [Mem.value]
  generalize m.context.str f = o at hf
  generalize v.str f = o' at hf
  cases hf with
  | some hp => exact hp
  | none => rfl

theorem setValues_serverArrayEntries (v : ServerContext CString) (xs : List Setter) :
    (setValues v xs).serverArrayEntries =
      (serverAdded xs).reverse.map valueEntry ++ v.serverArrayEntries :=
  setValues_entries (·.serverArrayEntries) Setter.serverPair (fun x _ => by cases x <;> rfl) v xs

theorem serverAdded_cons (x : Setter) (xs : List Setter) :
    serverAdded (x :: xs) = x.serverPair.toList ++ serverAdded xs := by
  cases hx : x.serverPair <;> simp [serverAdded, hx]

/-- Adding an entry for `DOCUMENT_ROOT` is the one way to set the document root. -/
theorem set_documentRoot (x : Setter) (v : ServerContext CString) :
    (x.set v).str .documentRoot =
      (last (bytes "DOCUMENT_ROOT") x.serverPair.toList).or (v.str .documentRoot) := by
  cases x with
  | addServerEntry k w =>
    rw [Setter.serverPair, Option.toList_some, last_cons, Setter.set]
    by_cases hk : k = bytes "DOCUMENT_ROOT"
    · rw [if_pos hk, if_pos hk.symm]
      rfl
    · rw [if_neg hk, if_neg (Ne.symm hk)]
      rfl
  | _ => rfl

/-- The document root is the last value of `DOCUMENT_ROOT`. -/
theorem setValues_documentRoot (v : ServerContext CString) (xs : List Setter) :
    (setValues v xs).str .documentRoot =
      (last (bytes "DOCUMENT_ROOT") (serverAdded xs)).or (v.str .documentRoot) := by
  induction xs generalizing v with
  | nil => rfl
  | cons x xs ih =>
    rw [setValues, List.foldl_cons, ← setValues, ih, set_documentRoot, serverAdded_cons,
      last_append, Option.or_assoc]

/-- What the SAPI registers before the entries that were added, over the values of a context. -/
def sapiVariables (v : ServerContext CString) : List (CString × CString) :=
  (serverVariables [] (v.str .requestUri)
    (match v.str .documentRoot, v.str .pathTranslated with
      | some r, some p => scriptVariables r p
      | _, _ => none)
    (v.str .queryString) (v.str .requestHost) (v.str .requestMethod) 1000 v.requestPort
    []).registered

theorem mapM_readEntry_values (l : List (CString × CString)) :
    (l.map valueEntry).mapM (readEntry some) = some l := by
  induction l with
  | nil => rfl
  | cons e l ih => rw [List.map_cons, List.mapM_cons, ih]; rfl

theorem wasmSapiRegisterServerVariables_values {v : ServerContext CString}
    {l : List (CString × CString)} (hl : v.serverArrayEntries = l.map valueEntry) :
    (wasmSapiRegisterServerVariables some [] v v.info).map (·.registered) =
      some (sapiVariables v ++ l) := by
  have hderef : ∀ o : Option CString, derefOpt some o = some o := fun o => by cases o <;> rfl
  simp only [wasmSapiRegisterServerVariables, hl, mapM_readEntry_values, hderef,
    ServerContext.info, InfoField.source]
  cases hr : v.str .documentRoot with
  | none => simp [sapiVariables, serverVariables, hr]
  | some r =>
    cases hp : v.str .pathTranslated with
    | none => simp [sapiVariables, serverVariables, hr, hp]
    | some p => simp [sapiVariables, serverVariables, hr, hp]

/-- The array left in a filled context: what the SAPI registers, then the entries, newest first. -/
theorem serverArray_filled {A : Type*} (T : TrackVars A) (imported : A) (s : Sapi δ)
    (xs : List Setter) :
    serverArray T imported (s.filled xs).mem =
      some ((sapiVariables (setValues wasmInitServerContext xs) ++ (serverAdded xs).reverse).foldl
        (fun a e => T.register e.1 e.2 a) imported) := by
  have h := filled_holds s xs
  have hentries := setValues_serverArrayEntries wasmInitServerContext xs
  rw [show (wasmInitServerContext (ρ := CString)).serverArrayEntries = [] from rfl,
    List.append_nil] at hentries
  have hregistered := wasmSapiRegisterServerVariables_values hentries
  have hrel : callback (s.filled xs).mem.heap.read copyInside (s.filled xs).mem.context
      (s.filled xs).mem.context.info (.registerServerVariables []) =
        callback some copyInside (setValues wasmInitServerContext xs)
          (setValues wasmInitServerContext xs).info (.registerServerVariables []) :=
    callback_rel (fun _ _ hp => hp) h (fun f => h.str f.source) h.contentLength Iff.rfl _
  have heq := Option.map_injective (fun _ _ he => Answer.variables.inj he) hrel
  rw [serverArray, heq]
  obtain ⟨r, hr, hr'⟩ := Option.map_eq_some_iff.1 hregistered
  rw [hr, Option.map_some, hr']

/-- What is registered after the script's name. -/
def laterVariables (v : ServerContext CString) : List (CString × CString) :=
  ((v.str .queryString).toList.map fun x => (bytes "argv", x)) ++
  [(bytes "SERVER_SOFTWARE", bytes "PHP.wasm"),
    (bytes "SERVER_PORT", bytes (toString v.requestPort))] ++
  ((v.str .requestHost).toList.flatMap fun x => [(bytes "SERVER_NAME", x), (bytes "HTTP_HOST", x)])
  ++ ((v.str .requestMethod).toList.map fun x => (bytes "REQUEST_METHOD", x)) ++
  ((v.str .queryString).toList.map fun x => (bytes "QUERY_STRING", x))

/-- The three variables that name the script. -/
def scriptNamed (name filename : CString) : List (CString × CString) :=
  [(bytes "SCRIPT_NAME", name), (bytes "SCRIPT_FILENAME", filename), (bytes "PHP_SELF", name)]

/-- What the script is named by: the path behind the document root, or else the request URI. -/
def scriptNames (v : ServerContext CString) : List (CString × CString) :=
  (match v.str .documentRoot, v.str .pathTranslated with
    | some r, some p => scriptVariables r p
    | _, _ => none).getD ((v.str .requestUri).toList.flatMap fun x => scriptNamed x x)

theorem sapiVariables_eq (v : ServerContext CString) :
    sapiVariables v = ((v.str .requestUri).toList.map fun x => (bytes "REQUEST_URI", x)) ++
      (scriptNames v ++ laterVariables v) := by
  simp [sapiVariables, serverVariables, scriptNames, scriptNamed, laterVariables]

theorem laterVariables_key {v : ServerContext CString} {e : CString × CString}
    (he : e ∈ laterVariables v) : e.1 ∈ sapiKeys ∧ e.1 ∉ scriptKeys := by
  simp only [laterVariables, List.mem_append, List.mem_map, List.mem_flatMap, List.mem_cons,
    List.not_mem_nil, or_false] at he
  rcases he with (((⟨x, -, rfl⟩ | rfl | rfl) | ⟨x, -, rfl | rfl⟩) | ⟨x, -, rfl⟩) | ⟨x, -, rfl⟩ <;>
    exact ⟨by dsimp only; decide, by dsimp only; decide⟩

theorem scriptVariables_eq (root path : CString) :
    scriptVariables root path =
      if root <+: path then some (scriptNamed (path.drop root.length) path) else none := by
  rw [scriptVariables]
  congr 1
  rw [strncmpEq, List.take_length, beq_iff_eq, List.prefix_iff_eq_take]

/-- What the SAPI calls the script: the rest of the path behind the document root, whatever that
rest starts with, or else the request URI. -/
def derivedPath (root path uri : Option CString) : Option CString :=
  match root, path with
  | some r, some p => if r <+: p then some (p.drop r.length) else uri
  | _, _ => uri

theorem scriptNames_eq (v : ServerContext CString) : ∃ filename, scriptNames v =
    (derivedPath (v.str .documentRoot) (v.str .pathTranslated) (v.str .requestUri)).toList.flatMap
      fun name => scriptNamed name filename := by
  have huri : ∀ u : Option CString, ∃ filename,
      (u.toList.flatMap fun x => scriptNamed x x) =
        u.toList.flatMap fun name => scriptNamed name filename := fun u => by
    cases u with
    | none => exact ⟨[], rfl⟩
    | some x => exact ⟨x, rfl⟩
  unfold scriptNames derivedPath
  cases v.str .documentRoot with
  | none => exact huri _
  | some r =>
    cases v.str .pathTranslated with
    | none => exact huri _
    | some p =>
      simp only [scriptVariables_eq]
      by_cases hpre : r <+: p
      · exact ⟨p, by simp [hpre]⟩
      · simpa [hpre] using huri _

theorem scriptNames_key {v : ServerContext CString} {e : CString × CString}
    (he : e ∈ scriptNames v) : e.1 ∈ sapiKeys := by
  obtain ⟨filename, hv⟩ := scriptNames_eq v
  rw [hv, List.mem_flatMap] at he
  obtain ⟨name, -, he⟩ := he
  simp only [scriptNamed, List.mem_cons, List.not_mem_nil, or_false] at he
  rcases he with rfl | rfl | rfl <;> (dsimp only; decide)

theorem last_scriptNames (v : ServerContext CString) {k : CString} (hk : k ∈ scriptKeys) :
    last k (scriptNames v) =
      derivedPath (v.str .documentRoot) (v.str .pathTranslated) (v.str .requestUri) := by
  obtain ⟨filename, hv⟩ := scriptNames_eq v
  rw [hv]
  cases derivedPath (v.str .documentRoot) (v.str .pathTranslated) (v.str .requestUri) with
  | none => rfl
  | some name =>
    simp only [scriptKeys, List.mem_cons, List.not_mem_nil, or_false] at hk
    rcases hk with rfl | rfl <;> rfl

theorem sapiVariables_key {v : ServerContext CString} {e : CString × CString}
    (he : e ∈ sapiVariables v) : e.1 ∈ sapiKeys := by
  rw [sapiVariables_eq, List.mem_append, List.mem_append, List.mem_map] at he
  rcases he with ⟨x, -, rfl⟩ | he | he
  · exact (by decide : bytes "REQUEST_URI" ∈ sapiKeys)
  · exact scriptNames_key he
  · exact (laterVariables_key he).1

theorem last_sapiVariables (v : ServerContext CString) {k : CString} (hk : k ∈ scriptKeys) :
    last k (sapiVariables v) =
      derivedPath (v.str .documentRoot) (v.str .pathTranslated) (v.str .requestUri) := by
  have hlater : last k (laterVariables v) = none :=
    last_eq_none_iff.2 fun e he h => (laterVariables_key he).2 (h ▸ hk)
  have huri : last k ((v.str .requestUri).toList.map fun x => (bytes "REQUEST_URI", x)) = none := by
    refine last_eq_none_iff.2 fun e he h => ?_
    obtain ⟨x, -, rfl⟩ := List.mem_map.1 he
    have hne : bytes "REQUEST_URI" ∉ scriptKeys := by decide
    exact hne (by rwa [show bytes "REQUEST_URI" = k from h])
  rw [sapiVariables_eq, last_append, last_append, hlater, huri, Option.none_or, Option.or_none,
    last_scriptNames v hk]

/-- An added key has its *first* value; any other key the one the SAPI registers. -/
theorem get_serverArray {A : Type*} (T : TrackVars A) (imported : A) (s : Sapi δ)
    {xs : List Setter} (hplain : ∀ e ∈ serverAdded xs, T.Plain e.1) {a : A}
    (ha : serverArray T imported (s.filled xs).mem = some a) (k : CString) :
    T.get a k = (first k (serverAdded xs)).or
      ((last k (sapiVariables (setValues wasmInitServerContext xs))).or (T.get imported k)) := by
  rw [serverArray_filled, Option.some_inj] at ha
  rw [← ha, look_foldl T.get T.register T.get_register ?_ imported k, last_append, last_reverse,
    Option.or_assoc]
  intro e he
  rcases List.mem_append.1 he with he | he
  · exact T.plain_sapiKeys _ (sapiVariables_key he)
  · exact hplain e (List.mem_reverse.1 he)

/-- The SAPI's name for the script is the right one unless the document root stops in the middle of
a component of the path. -/
theorem derivedPath_or_iff {root path uri : Option CString} {kept : Option CString} :
    (derivedPath root path uri).or kept = (scriptPath root path uri).or kept ↔
      ∀ r p, root = some r → path = some p → r <+: p → ¬ r ++ bytes "/" <+: p →
        uri.or kept = some (p.drop r.length) := by
  cases root with
  | none => exact ⟨fun _ _ _ h => (by cases h), fun _ => rfl⟩
  | some r =>
    cases path with
    | none => exact ⟨fun _ _ _ _ h => (by cases h), fun _ => rfl⟩
    | some p =>
      simp only [derivedPath, scriptPath, Option.some_inj]
      by_cases hpre : r <+: p
      · by_cases hslash : r ++ bytes "/" <+: p
        · simp [hpre, hslash]
        · simp [hpre, hslash, eq_comm]
      · have hslash : ¬ r ++ bytes "/" <+: p := fun h => hpre ((List.prefix_append _ _).trans h)
        simp [hpre, hslash]

/-- **When `$_SERVER` is right.** -/
theorem serverArrayRight_iff {A : Type*} (T : TrackVars A) (imported : A) (s : Sapi δ)
    {xs : List Setter} (hplain : ∀ e ∈ serverAdded xs, T.Plain e.1) :
    (∃ a ∈ serverArray T imported (s.filled xs).mem,
      ServerArrayRight T imported (s.filled xs).mem (serverAdded xs) a) ↔
        ServerArraySimple T imported (s.filled xs).mem (serverAdded xs) := by
  have hvalue := (filled_holds s xs).value
  have hroot := setValues_documentRoot wasmInitServerContext xs
  rw [show (wasmInitServerContext (ρ := CString)).str .documentRoot = none from rfl,
    Option.or_none, ← hvalue] at hroot
  have hget : ∀ a ∈ serverArray T imported (s.filled xs).mem, ∀ k,
      (∃ v, (k, v) ∈ serverAdded xs) → T.get a k = first k (serverAdded xs) := by
    intro a ha k hk
    obtain ⟨v, hv⟩ := Option.ne_none_iff_exists'.1 (mem_added_iff.1 hk)
    rw [get_serverArray T imported s hplain ha, hv, Option.some_or]
  have hscript : ∀ a ∈ serverArray T imported (s.filled xs).mem, ∀ k ∈ scriptKeys,
      (¬ ∃ v, (k, v) ∈ serverAdded xs) →
        T.get a k = (derivedPath ((s.filled xs).mem.value .documentRoot)
          ((s.filled xs).mem.value .pathTranslated)
          ((s.filled xs).mem.value .requestUri)).or (T.get imported k) := by
    intro a ha k hk hadded
    have hnone : first k (serverAdded xs) = none := by_contra fun h => hadded (mem_added_iff.2 h)
    rw [get_serverArray T imported s hplain ha, hnone, Option.none_or, last_sapiVariables _ hk,
      hvalue, hvalue, hvalue]
  constructor
  · rintro ⟨a, ha, h⟩
    refine ⟨fun k => ?_, fun k hk hadded => ?_⟩
    · by_cases hk : ∃ v, (k, v) ∈ serverAdded xs
      · rw [← hget a ha k hk, h.lastCall k hk]
      · have hnone : first k (serverAdded xs) = none := by_contra fun h => hk (mem_added_iff.2 h)
        rw [hnone, first_eq_none_iff_last.1 hnone]
    · exact derivedPath_or_iff.1 ((hscript a ha k hk hadded).symm.trans (h.script k hk hadded))
  · intro h
    refine ⟨_, serverArray_filled T imported s xs, fun k hk => ?_, fun hk => ?_,
      fun k hk hadded => ?_⟩
    · rw [hget _ (serverArray_filled T imported s xs) k hk, h.sameValue]
    · rw [hget _ (serverArray_filled T imported s xs) _ hk, h.sameValue, hroot]
    · rw [hscript _ (serverArray_filled T imported s xs) k hk hadded]
      exact derivedPath_or_iff.2 (h.wholeComponents k hk hadded)

/-- Arrays as functions from keys, where a key is plain when nothing in it is special to
`php_register_variable`. -/
def functionVars : TrackVars (CString → Option CString) where
  register k v a := Function.update a k (some v)
  get a k := a k
  Plain k := k ≠ [] ∧ ∀ b ∈ k, b ∉ bytes " .["
  get_register k v a k' _ := Function.update_apply a k (some v) k'
  plain_sapiKeys := by
    have hall : sapiKeys.all (fun k => k ≠ [] && k.all fun b => b ∉ bytes " .[") = true := by decide
    simpa using hall

instance (k : CString) : Decidable (functionVars.Plain k) :=
  @instDecidableAnd _ _ inferInstance (List.decidableBAll _ k)

/-- A key with two values has the first one, and a directory beside the document root whose name
merely starts the same counts as being inside it. -/
theorem server_array_not_right :
    let s := Sapi.start stdioTable
    let twice := [Setter.addServerEntry (bytes "K") (bytes "1"),
      .addServerEntry (bytes "K") (bytes "2")]
    let sibling := [Setter.addServerEntry (bytes "DOCUMENT_ROOT") (bytes "/www"),
      .setPathTranslated (bytes "/www2/a.php"), .setRequestUri (bytes "/a")]
    let left := fun xs => serverArray functionVars (fun _ => none) (s.filled xs).mem
    (left twice).map (· (bytes "K")) = some (some (bytes "1")) ∧
      (¬ ∃ a ∈ left twice, ServerArrayRight functionVars (fun _ => none) (s.filled twice).mem
        (serverAdded twice) a) ∧
      (left sibling).map (· (bytes "PHP_SELF")) = some (some (bytes "2/a.php")) ∧
      ¬ ∃ a ∈ left sibling, ServerArrayRight functionVars (fun _ => none) (s.filled sibling).mem
        (serverAdded sibling) a := by
  refine ⟨by decide, ?_, by decide, ?_⟩
  · rintro ⟨a, ⟨rfl⟩, h⟩
    exact absurd (h.lastCall (bytes "K") ⟨bytes "1", by decide⟩) (by decide)
  · rintro ⟨a, ⟨rfl⟩, h⟩
    have hadded : ¬ ∃ v, (bytes "PHP_SELF", v) ∈
        serverAdded [Setter.addServerEntry (bytes "DOCUMENT_ROOT") (bytes "/www"),
          .setPathTranslated (bytes "/www2/a.php"), .setRequestUri (bytes "/a")] := fun hv =>
      absurd (mem_added_iff.1 hv) (by decide)
    exact absurd (h.script (bytes "PHP_SELF") (by decide) hadded) (by decide)

/-- With one value a key and a script inside the document root, `$_SERVER` is right. -/
theorem server_array_right :
    let s := Sapi.start stdioTable
    let xs := [Setter.addServerEntry (bytes "DOCUMENT_ROOT") (bytes "/www"),
      .setPathTranslated (bytes "/www/a.php"), .setRequestUri (bytes "/nice")]
    ∃ a ∈ serverArray functionVars (fun _ => none) (s.filled xs).mem,
      ServerArrayRight functionVars (fun _ => none) (s.filled xs).mem (serverAdded xs) a := by
  refine (serverArrayRight_iff functionVars _ _ (by decide)).2 ⟨fun k => rfl, ?_⟩
  rintro k - - r p hr hp - hslash
  obtain rfl : r = bytes "/www" := Option.some_inj.1 (hr.symm.trans (by decide))
  obtain rfl : p = bytes "/www/a.php" := Option.some_inj.1 (hp.symm.trans (by decide))
  exact absurd (by decide) hslash

end PhpWasm
