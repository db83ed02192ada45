import Publishing.Text.Digit

/-
The identity of a run, 128 bits written in five groups of hexadecimal digits.
-/

namespace Publishing

structure RunId where
  bits : BitVec 128
  deriving DecidableEq, Inhabited

namespace RunId

open Text

def text (r : RunId) : String :=
  let ds := hexDigits 32 r.bits.toNat
  String.ofList (ds.take 8 ++ '-' :: (ds.drop 8).take 4 ++ '-' :: (ds.drop 12).take 4 ++
    '-' :: (ds.drop 16).take 4 ++ '-' :: ds.drop 20)

def ofDigits? (ds : List Char) : Option RunId := do
  guard (ds.length = 32)
  let n ← ds.foldlM (fun n c => (hexValue? c).map (n * 16 + ·)) 0
  return ⟨BitVec.ofNat 128 n⟩

/-- The digits of a text in five groups. -/
def ungroup? (cs : List Char) : Option (List Char) := do
  guard (cs.length = 36)
  guard ([8, 13, 18, 23].all fun i => cs[i]? = some '-')
  return cs.take 8 ++ (cs.drop 9).take 4 ++ (cs.drop 14).take 4 ++ (cs.drop 19).take 4 ++
    cs.drop 24

/-- Accepts the five groups, also in braces or after `urn:uuid:` in letters of any case, and
the bare digits. -/
def ofText? (s : String) : Option RunId :=
  let cs := s.toList
  if cs.length = 32 then ofDigits? cs
  else if cs.length = 38 ∧ cs.head? = some '\x7b' ∧ cs.getLast? = some '\x7d' then
    ungroup? ((cs.drop 1).take 36) >>= ofDigits?
  else if (cs.take 9).map Char.toLower = "urn:uuid:".toList then ungroup? (cs.drop 9) >>= ofDigits?
  else ungroup? cs >>= ofDigits?

/-- The id of a run that begins at an instant, in milliseconds.  The instant leads, so
later runs have greater ids; of the rest all but six bits are random. -/
def ofInstant (ms random : Nat) : RunId :=
  ⟨BitVec.ofNat 48 ms ++ 7#4 ++ BitVec.ofNat 12 (random >>> 62) ++ 2#2 ++ BitVec.ofNat 62 random⟩

example : (ofText? "Urn:UUID:0190a1b2-c3d4-7e5f-8a9b-0c1d2e3f4a5b").isSome = true := by
  decide +kernel

example : (ofText? "0190A1B2-c3d4-7e5f-8a9b-0c1d2e3f4a5b").map text =
    some "0190a1b2-c3d4-7e5f-8a9b-0c1d2e3f4a5b" := by decide +kernel

end RunId
end Publishing
