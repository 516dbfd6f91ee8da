import PhpWasm.Base.FdTable

/-!
# Redirecting stdout and stderr

Emscripten cuts its own stdout and stderr off at the first null byte, so for the length of a
request the SAPI points descriptors 1 and 2 at two devices of its own.  This file models the two C
functions that do it and what they leave in the descriptor table.

Every system call may be refused; `RedirectCalls` is the environment's answer to the three calls of
one redirection.  Two facts about `redirectStreamToFile` matter later.

* When its `open` fails, it answers `-1` and has changed nothing (`redirect_of_openFails`).
* When its `open` succeeds, the descriptor it opened stays open, and it is not the descriptor it
  answers (`redirect_leaks`): the caller cannot close it, because it never learns its number.

`restoreStreamHandler` closes the descriptor it is given and no other, so `redirect_leaks` outlives
it.  `bracketFds_eq_iff` draws the conclusion for the pair of streams a request redirects.
-/

set_option autoImplicit false

namespace PhpWasm

open Posix FdTable

variable {δ : Type*}

/-- `fileno(stdout)` -/
def stdoutFd : Int := 1

/-- `fileno(stderr)` -/
def stderrFd : Int := 2

/-- The environment's answers to the calls of one `redirect_stream_to_file`. -/
structure RedirectCalls (δ : Type*) where
  /-- The description `open` creates, unless it is refused. -/
  opened : Option δ
  /-- Is `dup` granted? -/
  dup : Bool
  /-- Is `dup2` granted? -/
  dup2 : Bool

/-- `redirect_stream_to_file`: the answer, and the table afterwards. -/
def redirectStreamToFile (c : RedirectCalls δ) (stream : Int) (t : FdTable δ) : Int × FdTable δ :=
  let out := sysOpen c.opened t
  if out.1 = -1 then (-1, out.2)
  else
    let replacement := sysDup c.dup stream out.2
    let res := sysDup2 c.dup2 out.1 stream replacement.2
    if res.1 = -1 then (-1, res.2) else (replacement.1, res.2)

/-- `restore_stream_handler`: `granted` is whether its `dup2` is. -/
def restoreStreamHandler (granted : Bool) (stream replacement : Int) (t : FdTable δ) : FdTable δ :=
  (sysDup2 granted replacement stream t).2.close replacement

/-- The `fopen` and `fclose` of `wasm_sapi_send_headers`. -/
def sendHeaders (opened : Option δ) (t : FdTable δ) : FdTable δ :=
  let file := sysOpen opened t
  if file.1 = -1 then file.2 else file.2.close file.1

@[simp] theorem sendHeaders_eq (opened : Option δ) (t : FdTable δ) : sendHeaders opened t = t := by
  have h := close_sysOpen opened t
  rw [sendHeaders]
  split
  · rename_i h1
    rwa [h1, close_neg_one] at h
  · exact h

/-! ## One redirection -/

theorem redirect_of_openFails {c : RedirectCalls δ} {t : FdTable δ} (h : OpenFails c.opened t)
    (stream : Int) : redirectStreamToFile c stream t = (-1, t) := by
  simp [redirectStreamToFile, sysOpen_of_fails h]

/-- The answer is `-1` or the answer of the `dup`, and the table is the one the `dup2` leaves. -/
theorem redirect_cases (c : RedirectCalls δ) (stream : Int) {t : FdTable δ} {fd : Int} {e : δ}
    (hopen : sysOpen c.opened t = (fd, t.set fd e)) (hne : fd ≠ -1) :
    ((redirectStreamToFile c stream t).1 = -1 ∨
      (redirectStreamToFile c stream t).1 = (sysDup c.dup stream (t.set fd e)).1) ∧
    (redirectStreamToFile c stream t).2 =
      (sysDup2 c.dup2 fd stream (sysDup c.dup stream (t.set fd e)).2).2 := by
  simp only [redirectStreamToFile, hopen, if_neg hne]
  split
  · exact ⟨Or.inl rfl, rfl⟩
  · exact ⟨Or.inr rfl, rfl⟩

/-- A redirection closes nothing. -/
theorem grows_redirect (c : RedirectCalls δ) (stream : Int) (t : FdTable δ) :
    Grows t (redirectStreamToFile c stream t).2 := by
  by_cases h : OpenFails c.opened t
  · rw [redirect_of_openFails h]; exact Grows.refl t
  · obtain ⟨fd, e, -, hr, -, heq⟩ := sysOpen_of_not_fails h
    rw [(redirect_cases c stream heq (by have := hr.1; omega)).2]
    exact (grows_set t fd e).trans
      ((grows_sysDup c.dup stream _).trans (grows_sysDup2 c.dup2 fd stream _))

/-- The answer of a redirection was free before it. -/
theorem redirect_ne {c : RedirectCalls δ} {stream : Int} {t : FdTable δ} {x : Int}
    (hx : t.get x ≠ none) : (redirectStreamToFile c stream t).1 ≠ x := by
  have hx1 : x ≠ -1 := by
    rintro rfl
    exact hx (t.get_neg (by omega))
  by_cases h : OpenFails c.opened t
  · rw [redirect_of_openFails h]; exact hx1.symm
  · obtain ⟨fd, e, -, hr, -, heq⟩ := sysOpen_of_not_fails h
    rcases (redirect_cases c stream heq (by have := hr.1; omega)).1 with h1 | h1
    · rw [h1]; exact hx1.symm
    · rw [h1]; exact sysDup_ne ((grows_set t fd e).get x hx)

/-- **A redirection that opens its file leaves it open**, at a descriptor that was free and that is
not the one it answers. -/
theorem redirect_leaks {c : RedirectCalls δ} {t : FdTable δ} (h : ¬ OpenFails c.opened t)
    (stream : Int) :
    ∃ out, t.get out = none ∧ (redirectStreamToFile c stream t).2.get out ≠ none ∧
      (redirectStreamToFile c stream t).1 ≠ out := by
  obtain ⟨fd, e, -, hr, hfree, heq⟩ := sysOpen_of_not_fails h
  have hne : fd ≠ -1 := by have := hr.1; omega
  have hopen : (t.set fd e).get fd ≠ none := by simp [get_set, hr]
  obtain ⟨hans, htab⟩ := redirect_cases c stream heq hne
  refine ⟨fd, hfree, ?_, ?_⟩
  · rw [htab]
    exact (grows_sysDup2 c.dup2 fd stream _).get fd ((grows_sysDup c.dup stream _).get fd hopen)
  · rcases hans with h1 | h1
    · rw [h1]; exact hne.symm
    · rw [h1]; exact sysDup_ne hopen

/-! ## Restoring -/

/-- Restoring closes the replacement and nothing else. -/
theorem restore_get_ne {granted : Bool} {stream replacement x : Int} {t : FdTable δ}
    (hx : t.get x ≠ none) (hne : replacement ≠ x) :
    (restoreStreamHandler granted stream replacement t).get x ≠ none := by
  rw [restoreStreamHandler, get_close_ne _ hne.symm]
  exact (grows_sysDup2 granted replacement stream t).get x hx

/-- Restoring after a redirection that failed is no change at all. -/
@[simp] theorem restore_neg_one (granted : Bool) (stream : Int) (t : FdTable δ) :
    restoreStreamHandler granted stream (-1) t = t := by
  rw [restoreStreamHandler, close_neg_one, sysDup2, t.get_neg (by omega)]

/-! ## The pair of streams -/

/-- The environment's answers to the redirections and restorations of one request. -/
structure StreamCalls (δ : Type*) where
  /-- The redirection of stdout. -/
  stdout : RedirectCalls δ
  /-- The redirection of stderr. -/
  stderr : RedirectCalls δ
  /-- Is the `dup2` that restores stdout granted? -/
  restoreStdout : Bool
  /-- Is the `dup2` that restores stderr granted? -/
  restoreStderr : Bool

namespace StreamCalls

variable (c : StreamCalls δ)

/-- The first redirection. -/
def redirectStdout (t : FdTable δ) : Int × FdTable δ := redirectStreamToFile c.stdout stdoutFd t

/-- The second redirection, made whatever the first one answered. -/
def redirectStderr (t : FdTable δ) : Int × FdTable δ :=
  redirectStreamToFile c.stderr stderrFd (c.redirectStdout t).2

/-- Did either redirection fail? -/
def Failed (t : FdTable δ) : Prop := (c.redirectStdout t).1 = -1 ∨ (c.redirectStderr t).1 = -1

instance (t : FdTable δ) : Decidable (c.Failed t) := inferInstanceAs (Decidable (_ ∨ _))

/-- Both restorations, from the table `t` and with the given replacements. -/
def restore (stdoutReplacement stderrReplacement : Int) (t : FdTable δ) : FdTable δ :=
  restoreStreamHandler c.restoreStderr stderrFd stderrReplacement
    (restoreStreamHandler c.restoreStdout stdoutFd stdoutReplacement t)

/-- Both redirections and both restorations. -/
def bracketFds (t : FdTable δ) : FdTable δ :=
  c.restore (c.redirectStdout t).1 (c.redirectStderr t).1 (c.redirectStderr t).2

/-- Neither file can be opened. -/
def NoFileOpens (t : FdTable δ) : Prop := OpenFails c.stdout.opened t ∧ OpenFails c.stderr.opened t

instance (t : FdTable δ) : Decidable (c.NoFileOpens t) := inferInstanceAs (Decidable (_ ∧ _))

variable {c}

theorem redirectStdout_of_noFileOpens {t : FdTable δ} (h : c.NoFileOpens t) :
    c.redirectStdout t = (-1, t) := redirect_of_openFails h.1 _

theorem redirectStderr_of_noFileOpens {t : FdTable δ} (h : c.NoFileOpens t) :
    c.redirectStderr t = (-1, t) := by
  rw [redirectStderr, redirectStdout_of_noFileOpens h]
  exact redirect_of_openFails h.2 _

/-- When a file does open, a descriptor that was free stays open after both redirections, and
neither redirection answers it. -/
theorem leaks_of_fileOpens {t : FdTable δ} (h : ¬ c.NoFileOpens t) :
    ∃ out, t.get out = none ∧ (c.redirectStderr t).2.get out ≠ none ∧
      (c.redirectStdout t).1 ≠ out ∧ (c.redirectStderr t).1 ≠ out := by
  by_cases h1 : OpenFails c.stdout.opened t
  · -- stdout was not touched, so the file that opens is the one for stderr
    have hout : c.redirectStdout t = (-1, t) := redirect_of_openFails h1 _
    have h2 : ¬ OpenFails c.stderr.opened t := fun h2 => h ⟨h1, h2⟩
    obtain ⟨out, hfree, hopen, hne⟩ := redirect_leaks h2 stderrFd
    refine ⟨out, hfree, ?_, ?_, ?_⟩
    · rw [redirectStderr, hout]; exact hopen
    · rw [hout]
      rintro rfl
      exact hopen (get_neg _ (by omega))
    · rw [redirectStderr, hout]; exact hne
  · obtain ⟨out, hfree, hopen, hne⟩ := redirect_leaks h1 stdoutFd
    exact ⟨out, hfree, (grows_redirect c.stderr stderrFd _).get out hopen, hne, redirect_ne hopen⟩

/-- **The pair of streams.**  Redirecting and restoring both streams leaves the descriptor table as
it was exactly when neither file could be opened in the first place. -/
theorem bracketFds_eq_iff {t : FdTable δ} : c.bracketFds t = t ↔ c.NoFileOpens t := by
  constructor
  · intro heq
    by_contra h
    obtain ⟨out, hfree, hopen, hne1, hne2⟩ := leaks_of_fileOpens h
    have hleft : (c.bracketFds t).get out ≠ none :=
      restore_get_ne (restore_get_ne hopen hne1) hne2
    rw [heq] at hleft
    exact hleft hfree
  · intro h
    rw [bracketFds, redirectStdout_of_noFileOpens h, redirectStderr_of_noFileOpens h, restore,
      restore_neg_one, restore_neg_one]

/-- The same for the two redirections alone. -/
theorem redirectStderr_eq_iff {t : FdTable δ} : (c.redirectStderr t).2 = t ↔ c.NoFileOpens t := by
  constructor
  · intro heq
    by_contra h
    obtain ⟨out, hfree, hopen, -⟩ := leaks_of_fileOpens h
    rw [heq] at hopen
    exact hopen hfree
  · intro h
    rw [redirectStderr_of_noFileOpens h]

end StreamCalls

end PhpWasm
