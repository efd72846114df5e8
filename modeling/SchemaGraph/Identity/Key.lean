/-
**Keys.**

A key is the 128-bit hash of a canonical identity.  It is written as 32 hexadecimal digits and
ordered as a number.

Main definitions:

* `Key`, `Key.ofCanonical` — a key, and the one of a canonical identity;
* `Key.ofIdentifier` — the key of an identifier in a scope, or its first violation;
* `Key.text` — the 32 digits.

Main results:

* `Key.ofIdentifier_eq_ok_iff` — a key is derived exactly for identifiers with a stable form.
-/

import SchemaGraph.Hash.Xxh3
import SchemaGraph.Identity.Canonical
import SchemaGraph.Identity.Validity

set_option autoImplicit false

namespace SchemaGraph

/-- The identity of a resolved type. -/
structure Key where
  hash : Hash.Wide
deriving DecidableEq, Repr, Inhabited

namespace Key

/-- The key as a number. -/
def toNat (k : Key) : Nat := k.hash.toNat

/-- The key of a canonical identity. -/
def ofCanonical (text : String) : Key := ⟨Hash.xxh3 text.toUTF8.data⟩

/-- The key of an identifier in an optional scope. -/
def ofIdentifier (id : Identifier) (scope : Option Context) : Except IdentifierError Key :=
  match id.fault? with
  | some e => .error e
  | none => .ok (ofCanonical (canonicalIdentity id scope))

theorem ofIdentifier_eq_ok_iff (id : Identifier) (scope : Option Context) (k : Key) :
    ofIdentifier id scope = .ok k
      ↔ id.fault? = none ∧ k = ofCanonical (canonicalIdentity id scope) := by
  cases h : id.fault? <;> simp [ofIdentifier, h, eq_comm]

/-- The key in 32 hexadecimal digits. -/
def text (k : Key) : String :=
  let digits := Nat.toDigits 16 k.toNat
  String.ofList (List.replicate (32 - digits.length) '0' ++ digits)

/-- The order of keys is that of the numbers. -/
def le (a b : Key) : Bool := a.toNat ≤ b.toNat

end Key

end SchemaGraph
