import Mathlib.Algebra.Ring.Nat
import Mathlib.Logic.Function.Basic

/-!
# Numbers in a memory of bytes

A number of `n` bytes at an address is stored with its lowest byte first.  `load` and `store` are
the access to such a number, and `loadInt` and `storeInt` that to a number in two's complement.

What was stored is read back (`load_store_self`, `loadInt_storeInt`), and nothing else changes
(`store_of_outside`, `load_store_of_disjoint`).  `loadBytes` and `storeBytes` are the access to a
block of bytes.
-/

set_option autoImplicit false

namespace LittleEndian

/-- A memory. -/
abbrev ByteMemory := Nat → UInt8

/-- The number of `n` bytes at the address `a`. -/
def load (m : ByteMemory) (a : Nat) : Nat → Nat
  | 0 => 0
  | n + 1 => (m a).toNat + 256 * load m (a + 1) n

/-- The memory with the number `v` of `n` bytes at the address `a`. -/
def store (m : ByteMemory) (a : Nat) : Nat → Nat → ByteMemory
  | 0, _ => m
  | n + 1, v => store (Function.update m a (UInt8.ofNat v)) (a + 1) n (v / 256)

/-- The number of `n` bytes in two's complement. -/
def loadInt (m : ByteMemory) (a n : Nat) : Int := (load m a n : Int).bmod (256 ^ n)

/-- The memory with the number `v` in two's complement. -/
def storeInt (m : ByteMemory) (a n : Nat) (v : Int) : ByteMemory :=
  store m a n (v % (256 ^ n : Nat)).toNat

variable {m m' : ByteMemory} {a b n k : Nat}

/-- What is stored does not go beyond its `n` bytes. -/
theorem store_of_outside {x : Nat} (h : x < a ∨ a + n ≤ x) (v : Nat) : store m a n v x = m x := by
  induction n generalizing m a v with
  | zero => rfl
  | succ n ih =>
    have hne : x ≠ a := by omega
    have hout : x < a + 1 ∨ a + 1 + n ≤ x := by omega
    rw [store, ih hout, Function.update_of_ne hne]

/-- A number only depends on its bytes. -/
theorem load_congr (h : ∀ x, a ≤ x → x < a + n → m x = m' x) : load m a n = load m' a n := by
  induction n generalizing a with
  | zero => rfl
  | succ n ih =>
    have hfirst := h a (Nat.le_refl a) (by omega)
    have hrest := ih (a := a + 1) fun x hx hlt => h x (by omega) (by omega)
    rw [load, load, hfirst, hrest]

/-- Storing one number leaves another one alone. -/
theorem load_store_of_disjoint (h : b + k ≤ a ∨ a + n ≤ b) (v : Nat) :
    load (store m a n v) b k = load m b k :=
  load_congr fun _ _ _ => store_of_outside (by omega) v

/-- **What was stored is read back**, as far as it fits. -/
theorem load_store_self (m : ByteMemory) (a n v : Nat) :
    load (store m a n v) a n = v % 256 ^ n := by
  induction n generalizing m a v with
  | zero => rw [Nat.pow_zero, Nat.mod_one]; rfl
  | succ n ih =>
    have hfirst : store (Function.update m a (UInt8.ofNat v)) (a + 1) n (v / 256) a =
        UInt8.ofNat v := by
      rw [store_of_outside (.inl (Nat.lt_succ_self a)), Function.update_self]
    have hbyte : (UInt8.ofNat v).toNat = v % 256 := rfl
    rw [store, load, ih, hfirst, hbyte, Nat.pow_succ', Nat.mod_mul]

theorem loadInt_storeInt_of_disjoint (h : b + k ≤ a ∨ a + n ≤ b) (v : Int) :
    loadInt (storeInt m a n v) b k = loadInt m b k := by
  rw [loadInt, storeInt, load_store_of_disjoint h, loadInt]

/-- **A number in two's complement is read back**, if it fits. -/
theorem loadInt_storeInt {v : Int} (hle : -(256 ^ n : Nat) ≤ v * 2)
    (hlt : v * 2 < (256 ^ n : Nat)) : loadInt (storeInt m a n v) a n = v := by
  have hpos : 0 < 256 ^ n := Nat.pow_pos (by decide)
  have hmod : 0 ≤ v % (256 ^ n : Nat) := Int.emod_nonneg _ (by omega)
  have hfits : (v % (256 ^ n : Nat)).toNat < 256 ^ n := by
    have := Int.emod_lt_of_pos v (show (0 : Int) < (256 ^ n : Nat) by omega)
    omega
  rw [loadInt, storeInt, load_store_self, Nat.mod_eq_of_lt hfits, Int.toNat_of_nonneg hmod,
    Int.emod_bmod, Int.bmod_eq_of_le_mul_two hle hlt]

/-! ## Blocks of bytes -/

/-- The `n` bytes at the address `a`. -/
def loadBytes (m : ByteMemory) (a : Nat) : Nat → List UInt8
  | 0 => []
  | n + 1 => m a :: loadBytes m (a + 1) n

/-- The memory with a block of bytes at the address `a`. -/
def storeBytes (m : ByteMemory) (a : Nat) : List UInt8 → ByteMemory
  | [] => m
  | b :: bs => storeBytes (Function.update m a b) (a + 1) bs

/-- A block only depends on its bytes. -/
theorem loadBytes_congr (h : ∀ x, a ≤ x → x < a + n → m x = m' x) :
    loadBytes m a n = loadBytes m' a n := by
  induction n generalizing a with
  | zero => rfl
  | succ n ih =>
    have hrest := ih (a := a + 1) fun x hx hlt => h x (by omega) (by omega)
    rw [loadBytes, loadBytes, h a (Nat.le_refl a) (by omega), hrest]

theorem loadBytes_append : loadBytes m a (n + k) = loadBytes m a n ++ loadBytes m (a + n) k := by
  induction n generalizing a with
  | zero => simp [loadBytes]
  | succ n ih =>
    rw [Nat.succ_add, loadBytes, ih, loadBytes, List.cons_append, Nat.add_assoc, Nat.add_comm 1]

theorem length_loadBytes : (loadBytes m a n).length = n := by
  induction n generalizing a with
  | zero => rfl
  | succ n ih => rw [loadBytes, List.length_cons, ih]

theorem storeBytes_of_outside {x : Nat} {bs : List UInt8} (h : x < a ∨ a + bs.length ≤ x) :
    storeBytes m a bs x = m x := by
  induction bs generalizing m a with
  | nil => rfl
  | cons b bs ih =>
    rw [List.length_cons] at h
    have hne : x ≠ a := by omega
    rw [storeBytes, ih (by omega), Function.update_of_ne hne]

/-- **A block is read back.** -/
theorem loadBytes_storeBytes (m : ByteMemory) (a : Nat) (bs : List UInt8) :
    loadBytes (storeBytes m a bs) a bs.length = bs := by
  induction bs generalizing m a with
  | nil => rfl
  | cons b bs ih =>
    have hfirst : storeBytes (Function.update m a b) (a + 1) bs a = b := by
      rw [storeBytes_of_outside (.inl (Nat.lt_succ_self a)), Function.update_self]
    rw [List.length_cons, loadBytes, storeBytes, hfirst, ih]

end LittleEndian
