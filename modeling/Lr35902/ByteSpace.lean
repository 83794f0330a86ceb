import Lr35902.Byte

/-!
# Address spaces

A `ByteSpace` holds one byte for each of the 65536 word addresses.  It is a perfect binary tree of
height 16, so that an update shares all but sixteen nodes with the old space and a fresh space is
shared throughout.

The view of a space is `ByteSpace.get`: two spaces with the same bytes are equal
(`ByteSpace.ext_get`), and each operation is characterised by the bytes that it leaves
(`ByteSpace.get_filled`, `ByteSpace.get_set`, `ByteSpace.get_load`, `ByteSpace.getElem?_window`).
-/

namespace Lr35902

/-- A perfect binary tree of height `n` with a byte at each of its leaves. -/
inductive ByteTree : Nat → Type where
  | leaf (v : UInt8) : ByteTree 0
  | node {n : Nat} (left right : ByteTree n) : ByteTree (n + 1)

namespace ByteTree

/-- The number of leaves of a tree of height `n`, which doubles with each level. -/
def leafCount : Nat → Nat
  | 0 => 1
  | n + 1 => 2 * leafCount n

/-- The tree in which every byte is `v`. -/
def filled (v : UInt8) : (n : Nat) → ByteTree n
  | 0 => leaf v
  | n + 1 => let t := filled v n; node t t

/-- The byte at position `i`, whose lowest binary digit selects a side of the root. -/
def get : {n : Nat} → ByteTree n → Nat → UInt8
  | _, leaf v, _ => v
  | _, node l r, i => if i % 2 = 0 then l.get (i / 2) else r.get (i / 2)

/-- The tree with byte `v` at position `i`. -/
def set : {n : Nat} → ByteTree n → Nat → UInt8 → ByteTree n
  | _, leaf _, _, v => leaf v
  | _, node l r, i, v => if i % 2 = 0 then node (l.set (i / 2) v) r else node l (r.set (i / 2) v)

theorem get_filled (v : UInt8) (n i : Nat) : (filled v n).get i = v := by
  induction n generalizing i with
  | zero => rfl
  | succ n ih => simp [filled, get, ih]

theorem get_set_self {n : Nat} (t : ByteTree n) (i : Nat) (v : UInt8) :
    (t.set i v).get i = v := by
  induction t generalizing i with
  | leaf => rfl
  | node l r ihl ihr => by_cases h : i % 2 = 0 <;> simp [set, get, h, ihl, ihr]

theorem get_set_ne {n : Nat} (t : ByteTree n) {i j : Nat} (v : UInt8) (hi : i < leafCount n)
    (hj : j < leafCount n) (h : i ≠ j) : (t.set i v).get j = t.get j := by
  induction t generalizing i j with
  | leaf => simp only [leafCount] at hi hj; omega
  | node l r ihl ihr =>
    simp only [leafCount] at hi hj
    by_cases hx : i % 2 = 0 <;> by_cases hy : j % 2 = 0
    · simp only [set, get, hx, hy, if_true]
      exact ihl (by omega) (by omega) (by omega)
    · simp [set, get, hx, hy]
    · simp [set, get, hx, hy]
    · simp only [set, get, hx, hy, if_false]
      exact ihr (by omega) (by omega) (by omega)

theorem ext_get {n : Nat} {t u : ByteTree n} (h : ∀ i < leafCount n, t.get i = u.get i) :
    t = u := by
  induction n with
  | zero =>
    cases t; cases u
    simpa [get] using h 0 (by decide)
  | succ n ih =>
    cases t with
    | node l r =>
      cases u with
      | node l' r' =>
        have hl : l = l' := ih fun i hi => by
          have := h (2 * i) (by simp only [leafCount]; omega)
          simpa [get] using this
        have hr : r = r' := ih fun i hi => by
          have := h (2 * i + 1) (by simp only [leafCount]; omega)
          have hm : (2 * i + 1) % 2 = 1 := by omega
          have hd : (2 * i + 1) / 2 = i := by omega
          simpa [get, hm, hd] using this
        rw [hl, hr]

end ByteTree

/-- A byte for each word address. -/
structure ByteSpace where
  /-- The bytes, with the address as position. -/
  tree : ByteTree 16

namespace ByteSpace

/-- The number of addresses. -/
def size : Nat := 0x10000

/-- The space in which every byte is `v`. -/
def filled (v : UInt8) : ByteSpace := ⟨ByteTree.filled v 16⟩

instance : Inhabited ByteSpace := ⟨filled 0⟩

/-- The byte at address `a`. -/
def get (s : ByteSpace) (a : UInt16) : UInt8 := s.tree.get a.toNat

/-- The space with byte `v` at address `a`. -/
def set (s : ByteSpace) (a : UInt16) (v : UInt8) : ByteSpace := ⟨s.tree.set a.toNat v⟩

/-- The space with `bytes` in a row from address `start`. -/
def load (s : ByteSpace) (start : Nat) : List UInt8 → ByteSpace
  | [] => s
  | v :: bytes => (s.set start.toUInt16 v).load (start + 1) bytes

/-- The `count` bytes from address `start`. -/
def window (s : ByteSpace) (start count : Nat) : List UInt8 :=
  (List.range count).map fun i => s.get (start + i).toUInt16

@[ext] theorem ext_get {s t : ByteSpace} (h : ∀ a, s.get a = t.get a) : s = t := by
  obtain ⟨s⟩ := s
  obtain ⟨t⟩ := t
  congr
  refine ByteTree.ext_get fun i hi => ?_
  have := h i.toUInt16
  have hm : i % 65536 = i := Nat.mod_eq_of_lt hi
  simpa [get, hm] using this

@[simp] theorem get_filled (v : UInt8) (a : UInt16) : (filled v).get a = v :=
  ByteTree.get_filled v 16 a.toNat

@[simp] theorem get_set_self (s : ByteSpace) (a : UInt16) (v : UInt8) : (s.set a v).get a = v :=
  ByteTree.get_set_self s.tree a.toNat v

theorem get_set_ne (s : ByteSpace) {a b : UInt16} (v : UInt8) (h : a ≠ b) :
    (s.set a v).get b = s.get b :=
  ByteTree.get_set_ne s.tree v a.toNat_lt b.toNat_lt (mt UInt16.toNat_inj.1 h)

theorem get_set (s : ByteSpace) (a b : UInt16) (v : UInt8) :
    (s.set a v).get b = if a = b then v else s.get b := by
  split
  · next h => rw [h, get_set_self]
  · next h => exact get_set_ne s v h

/-- The addresses covered by a load hold its bytes, and all others are unchanged. -/
theorem get_load (s : ByteSpace) {start : Nat} {bytes : List UInt8}
    (h : start + bytes.length ≤ size) (a : UInt16) :
    (s.load start bytes).get a =
      if start ≤ a.toNat then bytes.getD (a.toNat - start) (s.get a) else s.get a := by
  induction bytes generalizing s start with
  | nil => simp [load]
  | cons v bytes ih =>
    simp only [List.length_cons, size] at h ih
    rw [load, ih _ (by omega), get_set]
    have hs : start.toUInt16.toNat = start := by simp; omega
    by_cases ha : start.toUInt16 = a
    · have : a.toNat = start := by rw [← ha, hs]
      rw [if_pos ha, if_neg (by omega), if_pos (by omega), this]
      simp
    · have hne : a.toNat ≠ start := fun e => ha (UInt16.toNat_inj.1 (by rw [hs, e]))
      rw [if_neg ha]
      by_cases hle : start ≤ a.toNat
      · have hd : a.toNat - start = (a.toNat - (start + 1)) + 1 := by omega
        rw [if_pos (by omega), if_pos hle, hd, List.getD_cons_succ]
      · rw [if_neg (by omega), if_neg hle]

theorem length_window (s : ByteSpace) (start count : Nat) :
    (s.window start count).length = count := by
  simp [window]

theorem getElem?_window (s : ByteSpace) {start count i : Nat} (h : i < count) :
    (s.window start count)[i]? = some (s.get (start + i).toUInt16) := by
  simp [window, h]

end ByteSpace

end Lr35902
