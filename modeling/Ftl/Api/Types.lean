import Mathlib

/-!
# Error codes and page attributes of the API

`ErrorCode` (`libs/rust/ftl_api/src/error.rs`) is an `i32` built from a four-letter name; the
eight constants have distinct names, and the model keeps them as eight constructors. A kernel
operation stops early either with an `Err(ErrorCode)` or with a panic (an `unwrap`, `expect`, an
index out of range, or an arithmetic overflow in the default debug profile): `Fault` is the
error type of the kernel's state monad, so that `?` propagates both.

`PageAttrs` (`libs/rust/ftl_api/src/vmspace.rs`) wraps a `usize`; the API builds its values from
`READ`, `WRITE` and `EXEC` (bits `0`, `1`, `2`) and `|`, so the model carries that the raw value
is below `8`.

A `Handle` (`libs/rust/ftl_api/src/handle.rs`) is what a server holds of a kernel object: the
object's address, the `TypeId` of its Rust type, and its rights. The kernel makes handles of three
types, the `Handleable` ones, which `TypeId` lists.

## Main definitions

* `Ftl.ErrorCode`, `Ftl.Fault`, `Ftl.PageAttrs`.
* `Ftl.HandleRight`, `Ftl.TypeId`, `Ftl.Handle`.
-/

namespace Ftl

/-- `ftl_api::error::ErrorCode`. -/
inductive ErrorCode where
  | outOfMemory
  | notAllowed
  | alreadyExists
  | invalidArg
  | invalidState
  | invalidType
  | outOfBounds
  | unsupported
  deriving DecidableEq, Repr

/-- How a kernel operation stops early. -/
inductive Fault where
  /-- It returns `Err(e)`. -/
  | err (e : ErrorCode)
  /-- It panics. -/
  | panic
  deriving DecidableEq, Repr

/-- `PageAttrs`: the bits `READ`, `WRITE` and `EXEC` of a mapping. -/
structure PageAttrs where
  raw : Nat
  raw_lt : raw < 8
  deriving DecidableEq, Repr

namespace PageAttrs

/-- `PageAttrs::READ`. -/
def READ : PageAttrs := ⟨1, by decide⟩

/-- `PageAttrs::WRITE`. -/
def WRITE : PageAttrs := ⟨2, by decide⟩

/-- `PageAttrs::EXEC`. -/
def EXEC : PageAttrs := ⟨4, by decide⟩

/-- `a | b`. -/
def or (a b : PageAttrs) : PageAttrs :=
  ⟨a.raw ||| b.raw, Nat.or_lt_two_pow (n := 3) a.raw_lt b.raw_lt⟩

/-- `as_raw()`. -/
def asRaw (a : PageAttrs) : Nat := a.raw

/-- `contains(other)`. -/
def contains (a other : PageAttrs) : Bool := a.raw &&& other.raw == other.raw

end PageAttrs

/-- `HandleRight`: the actions a handle allows, as bits. -/
structure HandleRight where
  raw : Nat
  deriving DecidableEq, Repr

namespace HandleRight

/-- `HandleRight::NONE`. -/
def NONE : HandleRight := ⟨0⟩

/-- `HandleRight::READ`. -/
def READ : HandleRight := ⟨1 <<< 0⟩

/-- `HandleRight::WRITE`. -/
def WRITE : HandleRight := ⟨1 <<< 1⟩

/-- `HandleRight::MAP`. -/
def MAP : HandleRight := ⟨1 <<< 2⟩

/-- `contains(other)`. -/
def contains (r other : HandleRight) : Bool := r.raw &&& other.raw == other.raw

/-- `or(other)`. -/
def or (r other : HandleRight) : HandleRight := ⟨r.raw ||| other.raw⟩

end HandleRight

/-- The `TypeId`s of the kernel types a handle can name (`impl Handleable`). -/
inductive TypeId where
  | thread
  | vmSpace
  | vmArea
  deriving DecidableEq, Repr

/-- `Handle`: the object's address `raw`, its type and the rights. -/
structure Handle where
  raw : Nat
  typeId : TypeId
  right : HandleRight
  deriving DecidableEq, Repr

end Ftl
