import PromiseDb.Library.MachineInt

/-!
# Byte representations of machine integers

Fixed-width little-endian and big-endian representations.  A signed integer is represented by
its two's complement, that is by its residue modulo a power of 256.
-/

namespace Bytes

/-- The `n` low bytes of a number, least significant first. -/
def le : Nat → Nat → List UInt8
  | 0, _ => []
  | n + 1, x => UInt8.ofNat x :: le n (x / 256)

/-- The number written by bytes, least significant first. -/
def ofLe : List UInt8 → Nat
  | [] => 0
  | b :: bs => b.toNat + 256 * ofLe bs

/-- The `n` low bytes of a number, most significant first. -/
def be (n x : Nat) : List UInt8 := (le n x).reverse

/-- The number written by bytes, most significant first. -/
def ofBe (bs : List UInt8) : Nat := ofLe bs.reverse

/-- A number is written in as many bytes as are asked for. -/
@[simp] theorem length_le (n x : Nat) : (le n x).length = n := by
  induction n generalizing x with
  | zero => rfl
  | succ n ih => rw [le, List.length_cons, ih]

/-- So it is with the most significant byte first. -/
@[simp] theorem length_be (n x : Nat) : (be n x).length = n := by
  rw [be, List.length_reverse, length_le]

/-- Reading back the low bytes gives the number modulo a power of 256. -/
theorem ofLe_le (n x : Nat) : ofLe (le n x) = x % 256 ^ n := by
  induction n generalizing x with
  | zero => simp [le, ofLe, Nat.mod_one]
  | succ n ih =>
    have hbyte : (UInt8.ofNat x).toNat = x % 256 := UInt8.toNat_ofNat'
    rw [le, ofLe, ih, hbyte, Nat.pow_succ']
    exact Nat.mod_mul.symm

/-- A number that fits is read back exactly. -/
theorem ofLe_le_of_lt {n x : Nat} (h : x < 256 ^ n) : ofLe (le n x) = x := by
  rw [ofLe_le, Nat.mod_eq_of_lt h]

/-- A number that fits is read back, most significant byte first. -/
theorem ofBe_be_of_lt {n x : Nat} (h : x < 256 ^ n) : ofBe (be n x) = x := by
  rw [ofBe, be, List.reverse_reverse, ofLe_le_of_lt h]

/-- Bytes write a number below a power of 256. -/
theorem ofLe_lt (bs : List UInt8) : ofLe bs < 256 ^ bs.length := by
  induction bs with
  | nil => simp [ofLe]
  | cons b bs ih =>
    have hb := b.toNat_lt
    rw [ofLe, List.length_cons, Nat.pow_succ]
    omega

/-- The bytes of a number determine it. -/
theorem le_ofLe (bs : List UInt8) : le bs.length (ofLe bs) = bs := by
  induction bs with
  | nil => rfl
  | cons b bs ih =>
    have hb := b.toNat_lt
    rw [List.length_cons, le, ofLe]
    have hdiv : (b.toNat + 256 * ofLe bs) / 256 = ofLe bs := by omega
    have hmod : UInt8.ofNat (b.toNat + 256 * ofLe bs) = b := by
      apply UInt8.toNat_inj.mp
      rw [UInt8.toNat_ofNat']
      omega
    rw [hdiv, hmod, ih]

/-- The bytes of a number of known width determine it. -/
theorem le_ofLe_of_length {bs : List UInt8} {n : Nat} (h : bs.length = n) : le n (ofLe bs) = bs := by
  subst h
  exact le_ofLe bs

/-! ## Slices -/

/-- The bytes at the positions from `start` up to `stop`. -/
def slice (bytes : List UInt8) (start stop : Nat) : List UInt8 :=
  (bytes.drop start).take (stop - start)

/-- A slice within the bytes has the length of its range. -/
theorem length_slice {bytes : List UInt8} {start stop : Nat} (h : stop ≤ bytes.length) :
    (slice bytes start stop).length = stop - start := by
  rw [slice, List.length_take, List.length_drop]
  omega

/-- Adjacent slices make up a slice. -/
theorem slice_append_slice (bytes : List UInt8) {a b c : Nat} (hab : a ≤ b) (hbc : b ≤ c) :
    slice bytes a b ++ slice bytes b c = slice bytes a c := by
  have hdrop : bytes.drop b = (bytes.drop a).drop (b - a) := by
    rw [List.drop_drop]
    congr 1
    omega
  have hlength : c - a = (b - a) + (c - b) := by omega
  rw [slice, slice, slice, hdrop, hlength, List.take_add]

/-- All bytes. -/
theorem slice_all {bytes : List UInt8} {n : Nat} (h : bytes.length = n) : slice bytes 0 n = bytes := by
  rw [slice, List.drop_zero, Nat.sub_zero, ← h, List.take_length]

/-- The slice of a field behind other bytes. -/
theorem slice_field {front field back : List UInt8} {start stop : Nat}
    (hstart : front.length = start) (hstop : field.length = stop - start) :
    slice (front ++ (field ++ back)) start stop = field := by
  rw [slice, ← hstart, List.drop_left, hstart, ← hstop, List.take_left]

end Bytes

namespace BoundedInt

variable {lo hi : ℤ}

/-- The little-endian representation in `n` bytes. -/
def toLeBytes (n : Nat) (x : BoundedInt lo hi) : List UInt8 :=
  Bytes.le n (x.val % (256 ^ n : Nat)).toNat

/-- The big-endian representation in `n` bytes. -/
def toBeBytes (n : Nat) (x : BoundedInt lo hi) : List UInt8 :=
  Bytes.be n (x.val % (256 ^ n : Nat)).toNat

/-- A bounded integer is written in as many bytes as are asked for. -/
@[simp] theorem length_toLeBytes (n : Nat) (x : BoundedInt lo hi) : (x.toLeBytes n).length = n :=
  Bytes.length_le _ _

/-- So it is with the most significant byte first. -/
@[simp] theorem length_toBeBytes (n : Nat) (x : BoundedInt lo hi) : (x.toBeBytes n).length = n :=
  Bytes.length_be _ _

/-- The machine integer whose residue is a given number stays in range. -/
theorem ofResidue_range {n : Nat} (hwidth : hi - lo + 1 = (256 ^ n : Nat)) (x : ℤ) :
    lo ≤ lo + (x - lo) % (256 ^ n : Nat) ∧ lo + (x - lo) % (256 ^ n : Nat) ≤ hi := by
  have hpos : (0 : ℤ) < (256 ^ n : Nat) := by positivity
  have hnonneg := Int.emod_nonneg (x - lo) hpos.ne'
  have hlt := Int.emod_lt_of_pos (x - lo) hpos
  omega

/-- The machine integer of a type that `n` bytes fill, by its residue. -/
def ofResidue {n : Nat} (hwidth : hi - lo + 1 = (256 ^ n : Nat)) (x : ℤ) : BoundedInt lo hi :=
  ⟨lo + (x - lo) % (256 ^ n : Nat), ofResidue_range hwidth x⟩

/-- The machine integer written by bytes, least significant first. -/
def ofLeBytes {n : Nat} (hwidth : hi - lo + 1 = (256 ^ n : Nat)) (bs : List UInt8) :
    BoundedInt lo hi := ofResidue hwidth (Bytes.ofLe bs)

/-- The machine integer written by bytes, most significant first. -/
def ofBeBytes {n : Nat} (hwidth : hi - lo + 1 = (256 ^ n : Nat)) (bs : List UInt8) :
    BoundedInt lo hi := ofResidue hwidth (Bytes.ofBe bs)

section Width

variable {n : Nat} (hwidth : hi - lo + 1 = (256 ^ n : Nat))

/-- A machine integer is determined by its residue. -/
theorem ofResidue_emod (x : BoundedInt lo hi) :
    ofResidue hwidth (x.val % (256 ^ n : Nat)) = x := by
  obtain ⟨hlo, hhi⟩ := x.property
  have hrange : (x.val - lo) % (256 ^ n : Nat) = x.val - lo :=
    Int.emod_eq_of_lt (by omega) (by omega)
  apply Subtype.ext
  calc lo + (x.val % (256 ^ n : Nat) - lo) % (256 ^ n : Nat)
      = lo + (x.val - lo) % (256 ^ n : Nat) := by rw [Int.emod_sub_emod]
    _ = x.val := by omega

/-- The residue of the machine integer with a given residue. -/
theorem val_ofResidue_emod (x : ℤ) :
    (ofResidue hwidth x).val % (256 ^ n : Nat) = x % (256 ^ n : Nat) := by
  rw [ofResidue, Int.add_emod_emod]
  congr 1
  omega

/-- The residue of a machine integer as a natural number. -/
theorem toNat_emod (x : ℤ) : ((x % (256 ^ n : Nat)).toNat : ℤ) = x % (256 ^ n : Nat) := by
  apply Int.toNat_of_nonneg
  exact Int.emod_nonneg x (by positivity)

/-- A remainder by a power of 256 fits into that many bytes. -/
theorem toNat_emod_lt (x : ℤ) : (x % (256 ^ n : Nat)).toNat < 256 ^ n := by
  have hlt := Int.emod_lt_of_pos x (b := (256 ^ n : Nat)) (by positivity)
  have := toNat_emod (n := n) x
  omega

/-- The little-endian bytes of a machine integer are read back. -/
theorem ofLeBytes_toLeBytes (x : BoundedInt lo hi) : ofLeBytes hwidth (x.toLeBytes n) = x := by
  rw [ofLeBytes, toLeBytes, Bytes.ofLe_le_of_lt (toNat_emod_lt x.val), toNat_emod]
  exact ofResidue_emod hwidth x

/-- The big-endian bytes of a machine integer are read back. -/
theorem ofBeBytes_toBeBytes (x : BoundedInt lo hi) : ofBeBytes hwidth (x.toBeBytes n) = x := by
  rw [ofBeBytes, toBeBytes, Bytes.ofBe_be_of_lt (toNat_emod_lt x.val), toNat_emod]
  exact ofResidue_emod hwidth x

/-- Bytes that fill the type are the little-endian bytes of the integer they write. -/
theorem toLeBytes_ofLeBytes {bs : List UInt8} (hlen : bs.length = n) :
    (ofLeBytes hwidth bs).toLeBytes n = bs := by
  have hlt : (Bytes.ofLe bs : ℤ) < (256 ^ n : Nat) := by
    have := Bytes.ofLe_lt bs
    rw [hlen] at this
    exact_mod_cast this
  rw [toLeBytes, ofLeBytes, val_ofResidue_emod, Int.emod_eq_of_lt (by positivity) hlt,
    Int.toNat_natCast]
  subst hlen
  exact Bytes.le_ofLe bs

/-- Bytes that fill the type are the big-endian bytes of the integer they write. -/
theorem toBeBytes_ofBeBytes {bs : List UInt8} (hlen : bs.length = n) :
    (ofBeBytes hwidth bs).toBeBytes n = bs := by
  have hrev : bs.reverse.length = n := by rw [List.length_reverse, hlen]
  have hle := toLeBytes_ofLeBytes hwidth hrev
  rw [toLeBytes, ofLeBytes] at hle
  rw [toBeBytes, Bytes.be, ofBeBytes, Bytes.ofBe, hle, List.reverse_reverse]

end Width

end BoundedInt

/-! ## Widths -/

/-- There are as many values as four bytes have. -/
theorem U32.width : (4294967295 : ℤ) - 0 + 1 = (256 ^ 4 : Nat) := by norm_num

/-- There are as many values as eight bytes have. -/
theorem U64.width : (18446744073709551615 : ℤ) - 0 + 1 = (256 ^ 8 : Nat) := by norm_num

/-- There are as many values as sixteen bytes have. -/
theorem U128.width :
    (340282366920938463463374607431768211455 : ℤ) - 0 + 1 = (256 ^ 16 : Nat) := by norm_num

/-- There are as many signed values as eight bytes have. -/
theorem I64.width : (9223372036854775807 : ℤ) - (-9223372036854775808) + 1 = (256 ^ 8 : Nat) := by
  norm_num
