import Mathlib.Data.List.Basic
import Mathlib.Tactic.Ring

/-!
# NeuroVoice.Lib.Riff

RIFF files: numbers with their lowest byte first, and chunks.

A chunk is a name of four bytes, a size of four bytes and a body of that size,
with a byte of padding when the size is odd.  A reader takes the size for a
bound: of a chunk whose file ends early it has the body that is there.
-/

namespace NeuroVoice.Riff

/-! ## numbers -/

/-- `n` in `w` bytes, the lowest one first. -/
def littleEndian (w n : Nat) : List UInt8 :=
  match w with
  | 0 => []
  | w + 1 => UInt8.ofNat n :: littleEndian w (n / 256)

/-- The number that bytes stand for. -/
def number : List UInt8 → Nat
  | [] => 0
  | b :: bs => b.toNat + 256 * number bs

@[simp] theorem length_littleEndian (w n : Nat) : (littleEndian w n).length = w := by
  induction w generalizing n with
  | zero => rfl
  | succ w ih => simp [littleEndian, ih]

/-- A number that fits is read back. -/
theorem number_littleEndian {w n : Nat} (h : n < 256 ^ w) : number (littleEndian w n) = n := by
  induction w generalizing n with
  | zero =>
      rw [pow_zero] at h
      simp [littleEndian, number]
      omega
  | succ w ih =>
      rw [pow_succ] at h
      have hrest : n / 256 < 256 ^ w := by omega
      have hbyte : (UInt8.ofNat n).toNat = n % 256 := UInt8.toNat_ofNat'
      simp only [littleEndian, number, ih hrest, hbyte]
      omega

/-! ## chunks -/

/-- A chunk. -/
structure Chunk where
  name : List UInt8
  body : List UInt8

/-- The first `n` chunks. -/
def chunksUpTo : Nat → List UInt8 → List Chunk
  | 0, _ => []
  | n + 1, bs =>
      if bs.length < 8 then []
      else
        let size := number ((bs.drop 4).take 4)
        { name := bs.take 4, body := (bs.drop 8).take size } ::
          chunksUpTo n (bs.drop (8 + (size + size % 2)))

/-- All of them: each has eight bytes at least. -/
def chunks (bs : List UInt8) : List Chunk := chunksUpTo bs.length bs

/-- The first chunk of that name. -/
def find (name : List UInt8) (bs : List UInt8) : Option (List UInt8) :=
  ((chunks bs).find? fun c => c.name = name).map Chunk.body

/-- What comes before a body of that size. -/
def announce (name : List UInt8) (size : Nat) : List UInt8 := name ++ littleEndian 4 size

variable {name other rest : List UInt8} {size : Nat}

/-- Rounds to spare find no further chunk. -/
theorem chunksUpTo_congr {n m : Nat} {bs : List UInt8} (hn : bs.length ≤ n) (hm : bs.length ≤ m) :
    chunksUpTo n bs = chunksUpTo m bs := by
  induction n generalizing m bs with
  | zero =>
      have hbs : bs = [] := List.length_eq_zero_iff.1 (Nat.le_zero.1 hn)
      cases m <;> simp [chunksUpTo, hbs]
  | succ n ih =>
      cases m with
      | zero =>
          have hbs : bs = [] := List.length_eq_zero_iff.1 (Nat.le_zero.1 hm)
          simp [chunksUpTo, hbs]
      | succ m =>
          simp only [chunksUpTo]
          split
          · rfl
          · congr 1
            apply ih <;> rw [List.length_drop] <;> omega

/-- A chunk is read, and then those behind it. -/
theorem chunks_announce (hname : name.length = 4) (hsize : size < 256 ^ 4) :
    chunks (announce name size ++ rest) =
      { name, body := rest.take size } :: chunks (rest.drop (size + size % 2)) := by
  have h8 : (announce name size).length = 8 := by simp [announce, hname]
  have hname' : (announce name size ++ rest).take 4 = name := by
    rw [announce, List.append_assoc, List.take_left' hname]
  have hnum : number (((announce name size ++ rest).drop 4).take 4) = size := by
    rw [announce, List.append_assoc, List.drop_left' hname,
      List.take_left' (length_littleEndian 4 size), number_littleEndian hsize]
  have hbody : ∀ k, (announce name size ++ rest).drop (8 + k) = rest.drop k := by
    intro k
    rw [← List.drop_drop, List.drop_left' h8]
  have hlen : (announce name size ++ rest).length = rest.length + 7 + 1 := by
    rw [List.length_append, h8]
    omega
  rw [chunks, hlen, chunksUpTo, if_neg (by omega)]
  simp only [hname', hnum, hbody, List.drop_left' h8]
  rw [chunksUpTo_congr ?_ le_rfl]
  · rfl
  · rw [List.length_drop]
    omega

/-- The chunk that is looked for comes first. -/
theorem find_announce (hname : name.length = 4) (hsize : size < 256 ^ 4) :
    find name (announce name size ++ rest) = some (rest.take size) := by
  simp [find, chunks_announce hname hsize]

/-- Another chunk comes first. -/
theorem find_announce_of_ne (hname : name.length = 4) (hsize : size < 256 ^ 4)
    (hne : name ≠ other) :
    find other (announce name size ++ rest) = find other (rest.drop (size + size % 2)) := by
  simp [find, chunks_announce hname hsize, hne]

end NeuroVoice.Riff
