/-
  Clarity/Base.lean
  =================
  **Bytes, errors and outcomes** — the vocabulary every other module shares.

  The core crate moves three kinds of value around: byte strings (`Vec<u8>`),
  32-byte arrays (`[u8; 32]`, used for every public key and identity), and
  `Result<T, Error>`.  The third one needs care.  A Rust method that takes
  `&mut self` and returns a `Result` keeps whatever it wrote before the error,
  so the model of such a method returns *both* the result and the state it
  leaves behind (`Outcome`), and `?` is `Outcome.andThen`.
-/
import Mathlib.Algebra.Ring.Nat
import Mathlib.Data.List.Basic

namespace Clarity

/-- `Vec<u8>`. -/
abbrev Bytes := List UInt8

/-- The bytes of an ASCII literal `b"..."`. -/
def ascii (s : String) : Bytes := s.toList.map fun c => c.toNat.toUInt8

/-- `[u8; 32]`: an X25519 public key, an Ed25519 identity, a random seed. -/
structure Bytes32 where
  bytes : Bytes
  length_eq : bytes.length = 32
deriving DecidableEq

namespace Bytes32

theorem ext_bytes {a b : Bytes32} (h : a.bytes = b.bytes) : a = b := by
  cases a; cases b; simpa using h

@[simp] theorem length_bytes (a : Bytes32) : a.bytes.length = 32 := a.length_eq

/-- The array whose last byte is `n` and whose other bytes are zero. -/
def ofByte (n : UInt8) : Bytes32 := ⟨List.replicate 31 0 ++ [n], by simp⟩

end Bytes32

/-! ## Orders for the map keys

`BTreeMap` keys are compared lexicographically, byte by byte for arrays and
component by component for tuples. -/

instance : Ord Bytes32 := ⟨compareOn Bytes32.bytes⟩

instance : Std.TransOrd Bytes32 :=
  inferInstanceAs (Std.TransCmp (compareOn Bytes32.bytes))

instance : Std.LawfulEqOrd Bytes32 where
  eq_of_compare h := Bytes32.ext_bytes (Std.LawfulEqOrd.eq_of_compare (α := Bytes) h)

instance : Ord (Bytes32 × UInt32) := lexOrd

/-! ## Errors and outcomes -/

/-- `core::error::Error`. -/
inductive Error where
  | badSignature
  | malformedKey
  | decrypt
  | unknownPrekey
  | wire (message : String)
  | unexpectedMessage
deriving DecidableEq, Repr

/-- `core::error::Result`. -/
abbrev Result (α : Type) := Except Error α

/-- What a `&mut self` method leaves behind: its result, and the state after it
    whether or not it failed. -/
abbrev Outcome (σ α : Type) := Result α × σ

namespace Outcome

variable {σ α β : Type}

/-- The `?` operator: go on from the state left behind, or stop there. -/
def andThen (o : Outcome σ α) (f : α → σ → Outcome σ β) : Outcome σ β :=
  match o with
  | (.ok a, s) => f a s
  | (.error e, s) => (.error e, s)

@[simp] theorem andThen_ok (a : α) (s : σ) (f : α → σ → Outcome σ β) :
    andThen (.ok a, s) f = f a s := rfl

@[simp] theorem andThen_error (e : Error) (s : σ) (f : α → σ → Outcome σ β) :
    andThen (.error e, s) f = (.error e, s) := rfl

/-- Lift a fallible function that changes no state. -/
def lift (r : Result α) (s : σ) : Outcome σ α := (r, s)

/-- The value and the state of a call that succeeded. -/
def toOption : Outcome σ α → Option (α × σ)
  | (.ok a, s) => some (a, s)
  | (.error _, _) => none

theorem toOption_eq_some_iff {o : Outcome σ α} {a : α} {s : σ} :
    o.toOption = some (a, s) ↔ o = (.ok a, s) := by
  rcases o with ⟨e | b, t⟩ <;> simp [toOption]

end Outcome

end Clarity
