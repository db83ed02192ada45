import Publishing.Document.Format
import Publishing.Error

/-
Places that hold one document.
-/

namespace Publishing

/-- A place in the world `σ` that holds one document.  Saving may change the world
even when it fails. -/
structure Store (σ : Type) where
  load : Timestamp → σ → Except Error Document
  save : Timestamp → Document → σ → Except Error Unit × σ

end Publishing
