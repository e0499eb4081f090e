import PromiseDb.Library.Bytes
import PromiseDb.Library.StateRun

/-!
# Writers and readers of byte strings

A writer appends bytes to a buffer and a reader takes bytes from the front of its input; both may
fail.  A reader inverts a byte string when it takes exactly these bytes, whatever follows them,
and reports every proper prefix of them as truncated.  A writer and a reader are paired when the
reader inverts whatever the writer appends; pairs are built along the structure of the two
programs, one rule for each way of composing them.
-/

namespace Codec

variable {ε α β : Type}

/-! ## Programs -/

/-- A program that appends bytes to a buffer. -/
abbrev Writer (ε : Type) := StateT (List UInt8) (Except ε)

/-- A program that takes bytes from the front of its input. -/
abbrev Reader (ε : Type) := StateT (List UInt8) (Except ε)

/-- Appends bytes as they are. -/
def Writer.raw (bytes : List UInt8) : Writer ε PUnit := fun out => .ok (⟨⟩, out ++ bytes)

/-- Goes on with a value, or fails. -/
def Writer.lift (x : Except ε α) : Writer ε α := fun out => x.map fun a => (a, out)

/-- What a writer appends to an empty buffer. -/
def Writer.written (w : Writer ε PUnit) : Except ε (List UInt8) := do
  let (_, out) ← w []
  .ok out

/-- Takes a number of bytes from the front. -/
def Reader.take (truncated : ε) (length : Nat) : Reader ε (List UInt8) := fun bytes =>
  if length ≤ bytes.length then .ok (bytes.take length, bytes.drop length) else .error truncated

/-- Goes on with a value, or fails. -/
def Reader.lift (x : Except ε α) : Reader ε α := fun bytes => x.map fun a => (a, bytes)

/-- A value that is there is handed on. -/
theorem Reader.lift_ok_bind (a : α) (k : α → Reader ε β) :
    (Reader.lift (.ok a) >>= k : Reader ε β) = k a := rfl

/-- Reads a number of values one after the other. -/
def Reader.times (r : Reader ε α) : Nat → Reader ε (List α)
  | 0 => pure []
  | n + 1 => do
    let a ← r
    let as ← times r n
    pure (a :: as)

/-- Reads a number of values, each of which must be in order with the value before it. -/
def Reader.timesInOrder (r : Reader ε α) (inOrder : α → α → Bool) (disorder : ε) :
    Option α → Nat → Reader ε (List α)
  | _, 0 => pure []
  | previous, n + 1 => do
    let a ← r
    if previous.all (inOrder · a) then
      let as ← timesInOrder r inOrder disorder (some a) n
      pure (a :: as)
    else throw disorder

/-- Reads a number of values at successive positions. -/
def Reader.timesFrom (r : Nat → Reader ε α) (position : Nat) : Nat → Reader ε (List α)
  | 0 => pure []
  | n + 1 => do
    let a ← r position
    let as ← timesFrom r (position + 1) n
    pure (a :: as)

/-! ## Writing -/

/-- The writer succeeds and appends the bytes. -/
def Writes (w : Writer ε PUnit) (bytes : List UInt8) : Prop :=
  ∀ out, w out = .ok (⟨⟩, out ++ bytes)

/-- The writer fails on every buffer. -/
def Fails (w : Writer ε PUnit) (e : ε) : Prop :=
  ∀ out, w out = .error e

/-- Raw bytes are written as they are. -/
theorem Writes.raw (bytes : List UInt8) : Writes (Writer.raw bytes : Writer ε PUnit) bytes :=
  fun _ => rfl

/-- Doing nothing writes nothing. -/
theorem Writes.pure : Writes (pure ⟨⟩ : Writer ε PUnit) [] := fun out => by
  rw [List.append_nil]
  rfl

/-- One writer after another. -/
theorem Writes.bind {w : Writer ε PUnit} {k : PUnit → Writer ε PUnit} {b c : List UInt8}
    (hw : Writes w b) (hk : Writes (k ⟨⟩) c) : Writes (w >>= k) (b ++ c) := fun out => by
  have hfirst : (w >>= k) out = (k ⟨⟩) (out ++ b) := by
    simp only [StateT.bind, Bind.bind, Except.bind, hw out]
  rw [hfirst, hk, List.append_assoc]

/-- Two writers that belong together, and another one after them. -/
theorem Writes.bind_bind {w : Writer ε PUnit} {v k : PUnit → Writer ε PUnit} {b c : List UInt8}
    (hw : Writes (w >>= v) b) (hk : Writes (k ⟨⟩) c) :
    Writes (w >>= fun u => v u >>= k) (b ++ c) := by
  rw [← bind_assoc]
  exact hw.bind hk

/-- A writer that goes on with a value that is there. -/
theorem Writes.lift {x : Except ε α} {k : α → Writer ε PUnit} {a : α} {bytes : List UInt8}
    (hx : x = .ok a) (hk : Writes (k a) bytes) : Writes (Writer.lift x >>= k) bytes := by
  subst hx
  exact hk

/-- What is written to an empty buffer. -/
theorem Writes.written {w : Writer ε PUnit} {bytes : List UInt8} (h : Writes w bytes) :
    w.written = .ok bytes := by
  rw [Writer.written, h []]
  rfl

/-- A writer appends at most one byte string. -/
theorem Writes.unique {w : Writer ε PUnit} {b c : List UInt8} (hb : Writes w b)
    (hc : Writes w c) : b = c :=
  Except.ok.inj (hb.written.symm.trans hc.written)

/-- A failure ends the writing. -/
theorem Fails.bind {w : Writer ε PUnit} {k : PUnit → Writer ε PUnit} {e : ε} (hw : Fails w e) :
    Fails (w >>= k) e := fun out => by
  simp only [StateT.bind, Bind.bind, Except.bind, hw out]

/-- A failure after something was written. -/
theorem Writes.bind_fails {w : Writer ε PUnit} {k : PUnit → Writer ε PUnit} {bytes : List UInt8}
    {e : ε} (hw : Writes w bytes) (hk : Fails (k ⟨⟩) e) : Fails (w >>= k) e := fun out => by
  simp only [StateT.bind, Bind.bind, Except.bind, hw out]
  exact hk (out ++ bytes)

/-- A writer that goes on with a value that is there and fails. -/
theorem Fails.lift {x : Except ε α} {k : α → Writer ε PUnit} {a : α} {e : ε} (hx : x = .ok a)
    (hk : Fails (k a) e) : Fails (Writer.lift x >>= k) e := by
  subst hx
  exact hk

/-- Nothing is left of what a failed writer has written. -/
theorem Fails.written {w : Writer ε PUnit} {e : ε} (h : Fails w e) : w.written = .error e := by
  rw [Writer.written, h []]
  rfl

/-- Whatever the buffer is, the writer only succeeds if the property holds. -/
def Requires (w : Writer ε PUnit) (P : Prop) : Prop :=
  ∀ ⦃out out' : List UInt8⦄, w out = .ok (⟨⟩, out') → P

namespace Requires

variable {w : Writer ε PUnit} {k : PUnit → Writer ε PUnit} {P Q : Prop}

/-- Every writer that succeeds has succeeded. -/
theorem trivial (w : Writer ε PUnit) : Requires w True := fun _ _ _ => True.intro

/-- What follows from a required property is required. -/
theorem imp (h : Requires w P) (hPQ : P → Q) : Requires w Q := fun _ _ hw => hPQ (h hw)

/-- What one writer and the next one require. -/
theorem bind (hw : Requires w P) (hk : Requires (k ⟨⟩) Q) : Requires (w >>= k) (P ∧ Q) := by
  intro out out' h
  simp only [StateT.bind, Bind.bind, Except.bind] at h
  cases hfirst : w out with
  | error e =>
    rw [hfirst] at h
    cases h
  | ok result =>
    obtain ⟨⟨⟩, mid⟩ := result
    rw [hfirst] at h
    exact ⟨hw hfirst, hk h⟩

/-- What the first of two writers requires. -/
theorem first (hw : Requires w P) : Requires (w >>= k) P :=
  (hw.bind (trivial (k ⟨⟩))).imp And.left

/-- What the second of two writers requires. -/
theorem second (hk : Requires (k ⟨⟩) Q) : Requires (w >>= k) Q :=
  ((trivial w).bind hk).imp And.right

/-- What writing a list requires of its elements. -/
theorem forM {write : α → Writer ε PUnit} {R : α → Prop} (h : ∀ a, Requires (write a) (R a))
    (l : List α) : Requires (l.forM write) (∀ a ∈ l, R a) := by
  induction l with
  | nil => exact (trivial _).imp fun _ a ha => by cases ha
  | cons a l ih =>
    have hcons : Requires (write a >>= fun _ => l.forM write) (R a ∧ ∀ b ∈ l, R b) := (h a).bind ih
    exact hcons.imp fun ⟨ha, hl⟩ => List.forall_mem_cons.mpr ⟨ha, hl⟩

/-- A writer that goes on with a value requires that the value is there. -/
theorem lift {x : Except ε α} {u : α → Writer ε PUnit} {R : α → Prop}
    (h : ∀ a, Requires (u a) (R a)) :
    Requires (Writer.lift x >>= u) (∃ a, x = .ok a ∧ R a) := by
  intro out out' hw
  cases x with
  | error e => cases hw
  | ok a => exact ⟨a, rfl, h a hw⟩

/-- What is required of everything that was written. -/
theorem written (h : Requires w P) {bytes : List UInt8} (hw : w.written = .ok bytes) : P := by
  obtain ⟨⟨⟨⟩, out⟩, hout, -⟩ := Except.bind_eq_ok.mp hw
  exact h hout

end Requires

/-! ## Reading -/

/-- The reader takes exactly the given bytes from the front of every input that starts with
them, and finds each of their proper prefixes truncated. -/
structure Inverts (truncated : ε) (r : Reader ε α) (bytes : List UInt8) (a : α) : Prop where
  /-- The bytes are taken, whatever follows them. -/
  whole : ∀ rest, r (bytes ++ rest) = .ok (a, rest)
  /-- Any cut is noticed as such. -/
  cut : ∀ front, front <+: bytes → front ≠ bytes → r front = .error truncated

namespace Inverts

variable {truncated : ε} {r : Reader ε α} {k : α → Reader ε β} {a : α} {b : β}
  {bytes more : List UInt8}

/-- A value that is given reads nothing. -/
theorem pure (a : α) : Inverts truncated (Pure.pure a : Reader ε α) [] a where
  whole _ := rfl
  cut _ hfront hne := (hne (List.prefix_nil.mp hfront)).elim

/-- Taking as many bytes as there are. -/
theorem take (truncated : ε) (bytes : List UInt8) :
    Inverts truncated (Reader.take truncated bytes.length) bytes bytes where
  whole rest := by
    rw [Reader.take, if_pos (by simp), List.take_left, List.drop_left]
  cut front hfront hne := by
    have hlt : front.length < bytes.length :=
      lt_of_le_of_ne hfront.length_le fun heq => hne (hfront.eq_of_length heq)
    rw [Reader.take, if_neg (not_le.mpr hlt)]

/-- One reader after another. -/
theorem bind (hr : Inverts truncated r bytes a) (hk : Inverts truncated (k a) more b) :
    Inverts truncated (r >>= k) (bytes ++ more) b where
  whole rest := by
    have hfirst : (r >>= k) (bytes ++ (more ++ rest)) = k a (more ++ rest) := by
      simp only [StateT.bind, Bind.bind, Except.bind, hr.whole]
    rw [List.append_assoc, hfirst, hk.whole]
  cut front hfront hne := by
    rcases List.prefix_or_prefix_of_prefix hfront (List.prefix_append bytes more) with
      hshort | ⟨back, rfl⟩
    · -- the cut falls into the first part, or exactly behind it
      by_cases heq : front = bytes
      · subst heq
        have hmore : ([] : List UInt8) ≠ more := fun h => hne (by rw [← h, List.append_nil])
        have hfirst : (r >>= k) front = k a [] := by
          have := hr.whole []
          rw [List.append_nil] at this
          simp only [StateT.bind, Bind.bind, Except.bind, this]
        rw [hfirst, hk.cut [] List.nil_prefix hmore]
      · simp only [StateT.bind, Bind.bind, Except.bind, hr.cut front hshort heq]
    · have hback : back <+: more := (List.prefix_append_right_inj bytes).mp hfront
      have hfirst : (r >>= k) (bytes ++ back) = k a back := by
        simp only [StateT.bind, Bind.bind, Except.bind, hr.whole]
      rw [hfirst, hk.cut back hback fun h => hne (by rw [h])]

/-- A reader that makes a value of what it has read. -/
theorem map (hr : Inverts truncated r bytes a) (hk : k a = Pure.pure b) :
    Inverts truncated (r >>= k) bytes b := by
  have hpure : Inverts truncated (k a) [] b := hk ▸ pure b
  simpa using hr.bind hpure

/-- A value that is there. -/
theorem lift (truncated : ε) {x : Except ε α} (hx : x = .ok a) :
    Inverts truncated (Reader.lift x) [] a := by
  subst hx
  exact pure a

end Inverts

/-! ## Pairs -/

/-- The writer succeeds, and the reader inverts what it appends. -/
def Paired (truncated : ε) (w : Writer ε PUnit) (r : Reader ε α) (a : α) : Prop :=
  ∃ bytes, Writes w bytes ∧ Inverts truncated r bytes a

namespace Paired

variable {truncated : ε} {w : Writer ε PUnit} {v : PUnit → Writer ε PUnit} {r : Reader ε α}
  {k : α → Reader ε β} {a : α} {b : β}

/-- Writing nothing is paired with a value that is given. -/
theorem pure (a : α) : Paired truncated (Pure.pure ⟨⟩) (Pure.pure a : Reader ε α) a :=
  ⟨[], Writes.pure, Inverts.pure a⟩

/-- Bytes that are written as they are and taken back. -/
theorem raw (truncated : ε) (bytes : List UInt8) :
    Paired truncated (Writer.raw bytes) (Reader.take truncated bytes.length) bytes :=
  ⟨bytes, Writes.raw bytes, Inverts.take truncated bytes⟩

/-- Two pairs one after the other. -/
theorem bind (hw : Paired truncated w r a) (hv : Paired truncated (v ⟨⟩) (k a) b) :
    Paired truncated (w >>= v) (r >>= k) b := by
  obtain ⟨bytes, hwrites, hreads⟩ := hw
  obtain ⟨more, hmore, hinverts⟩ := hv
  exact ⟨bytes ++ more, hwrites.bind hmore, hreads.bind hinverts⟩

/-- A reader that makes a value of what it has read. -/
theorem map (hw : Paired truncated w r a) (hk : k a = Pure.pure b) :
    Paired truncated w (r >>= k) b := by
  obtain ⟨bytes, hwrites, hreads⟩ := hw
  exact ⟨bytes, hwrites, hreads.map hk⟩

/-- A reader that goes on to read nothing more. -/
theorem andThen (hw : Paired truncated w r a) (hk : Inverts truncated (k a) [] b) :
    Paired truncated w (r >>= k) b := by
  obtain ⟨bytes, hwrites, hreads⟩ := hw
  refine ⟨bytes, hwrites, ?_⟩
  simpa using hreads.bind hk

/-- A writer that goes on with a value that is there. -/
theorem lift {γ : Type} {x : Except ε γ} {u : γ → Writer ε PUnit} {c : γ} (hx : x = .ok c)
    (hu : Paired truncated (u c) r a) : Paired truncated (Writer.lift x >>= u) r a := by
  obtain ⟨bytes, hwrites, hreads⟩ := hu
  exact ⟨bytes, Writes.lift hx hwrites, hreads⟩

/-- A list is read back by as many reads of an element. -/
theorem times {write : α → Writer ε PUnit} {l : List α}
    (h : ∀ a ∈ l, Paired truncated (write a) r a) :
    Paired truncated (l.forM write) (r.times l.length) l := by
  induction l with
  | nil => exact pure []
  | cons a l ih =>
    have hhead : Paired truncated (write a) r a := h a List.mem_cons_self
    have htail := ih fun b hb => h b (List.mem_cons_of_mem a hb)
    exact hhead.bind (htail.map rfl)

/-- An ordered list is read back by a reader that checks the order. -/
theorem timesInOrder {write : α → Writer ε PUnit} {inOrder : α → α → Bool} {disorder : ε}
    {l : List α} (h : ∀ a ∈ l, Paired truncated (write a) r a) (previous : Option α)
    (hprevious : ∀ p ∈ previous, ∀ a ∈ l.head?, inOrder p a = true)
    (hchain : l.IsChain fun a b => inOrder a b = true) :
    Paired truncated (l.forM write) (r.timesInOrder inOrder disorder previous l.length) l := by
  induction l generalizing previous with
  | nil => exact pure []
  | cons a l ih =>
    have hhead : Paired truncated (write a) r a := h a List.mem_cons_self
    have hcheck : previous.all (inOrder · a) = true := by
      cases previous with
      | none => rfl
      | some p => exact hprevious p rfl a rfl
    obtain ⟨hnext, htail⟩ := List.isChain_cons.mp hchain
    have hrest := ih (fun b hb => h b (List.mem_cons_of_mem a hb)) (some a)
      (fun p hp b hb => by
        obtain rfl : a = p := Option.some.inj hp
        exact hnext b hb) htail
    refine hhead.bind ?_
    rw [if_pos hcheck]
    exact hrest.map rfl

/-- A list whose elements know their positions is read back position by position. -/
theorem timesFrom {write : α → Writer ε PUnit} {read : Nat → Reader ε α} {l : List α}
    (position : Nat)
    (h : ∀ i a, l[i]? = some a → Paired truncated (write a) (read (position + i)) a) :
    Paired truncated (l.forM write) (Reader.timesFrom read position l.length) l := by
  induction l generalizing position with
  | nil => exact pure []
  | cons a l ih =>
    have hhead : Paired truncated (write a) (read position) a := h 0 a rfl
    have htail := ih (position + 1) fun i b hb => by
      have := h (i + 1) b (by simpa using hb)
      rwa [Nat.add_assoc, Nat.add_comm 1 i]
    exact hhead.bind (htail.map rfl)

end Paired

/-! ## Canonical readers -/

namespace Reader

variable {r : Reader ε α} {k : α → Reader ε β} {a : α} {b : β} {input rest : List UInt8}

/-- Two readers succeed one after the other. -/
theorem bind_eq_ok : (r >>= k) input = .ok (b, rest) ↔
    ∃ a mid, r input = .ok (a, mid) ∧ k a mid = .ok (b, rest) := by
  simp only [StateT.bind, Bind.bind, Except.bind]
  cases r input with
  | error e => simp
  | ok result =>
    obtain ⟨a, mid⟩ := result
    constructor
    · exact fun h => ⟨a, mid, rfl, h⟩
    · rintro ⟨a', mid', heq, h⟩
      cases heq
      exact h

/-- A value that is given leaves the input as it is. -/
theorem pure_eq_ok {a' : α} :
    (pure a : Reader ε α) input = .ok (a', rest) ↔ a = a' ∧ input = rest := by
  show (Except.ok (a, input) : Except ε (α × List UInt8)) = _ ↔ _
  rw [Except.ok.injEq, Prod.mk.injEq]

/-- A value that is handed on takes nothing. -/
theorem lift_eq_ok {x : Except ε α} :
    Reader.lift x input = .ok (a, rest) ↔ x = .ok a ∧ input = rest := by
  cases x with
  | error e => simp [Reader.lift, Except.map]
  | ok value => simp [Reader.lift, Except.map]

/-- What is taken are the first bytes of the input. -/
theorem take_eq_ok {truncated : ε} {n : Nat} {bytes : List UInt8} :
    Reader.take truncated n input = .ok (bytes, rest) ↔
      bytes.length = n ∧ input = bytes ++ rest := by
  unfold Reader.take
  split
  · rename_i hle
    rw [Except.ok.injEq, Prod.mk.injEq]
    constructor
    · rintro ⟨rfl, rfl⟩
      exact ⟨List.length_take_of_le hle, (List.take_append_drop n input).symm⟩
    · rintro ⟨rfl, rfl⟩
      exact ⟨List.take_left, List.drop_left⟩
  · rename_i hlt
    simp only [reduceCtorEq, false_iff]
    rintro ⟨rfl, rfl⟩
    exact hlt (by simp)

end Reader

/-- The writer appends exactly the bytes by which the input is longer than the rest. -/
def Spells (w : Writer ε PUnit) (input rest : List UInt8) : Prop :=
  ∃ bytes, Writes w bytes ∧ input = bytes ++ rest

namespace Spells

variable {w : Writer ε PUnit} {k : PUnit → Writer ε PUnit} {input mid rest : List UInt8}

/-- Writing nothing spells nothing. -/
theorem pure (input : List UInt8) : Spells (Pure.pure ⟨⟩ : Writer ε PUnit) input input :=
  ⟨[], Writes.pure, rfl⟩

/-- Raw bytes spell themselves. -/
theorem raw (bytes rest : List UInt8) :
    Spells (Writer.raw bytes : Writer ε PUnit) (bytes ++ rest) rest :=
  ⟨bytes, Writes.raw bytes, rfl⟩

/-- One writer after another. -/
theorem bind (hw : Spells w input mid) (hk : Spells (k ⟨⟩) mid rest) :
    Spells (w >>= k) input rest := by
  obtain ⟨front, hfront, rfl⟩ := hw
  obtain ⟨back, hback, rfl⟩ := hk
  exact ⟨front ++ back, hfront.bind hback, (List.append_assoc _ _ _).symm⟩

end Spells

/-- Whatever the reader accepts is what the writer writes for its value. -/
def Canonical (w : α → Writer ε PUnit) (r : Reader ε α) : Prop :=
  ∀ ⦃input a rest⦄, r input = .ok (a, rest) → Spells (w a) input rest

/-- Every value that the reader accepts has the property. -/
def Yields (r : Reader ε α) (P : α → Prop) : Prop :=
  ∀ ⦃input a rest⦄, r input = .ok (a, rest) → P a

namespace Canonical

variable {w : α → Writer ε PUnit} {r : Reader ε α} {input rest : List UInt8} {l : List α}

/-- Elements read one after the other are what the writer writes for their list. -/
theorem times (h : Canonical w r) {n : Nat} (hread : r.times n input = .ok (l, rest)) :
    l.length = n ∧ Spells (l.forM w) input rest := by
  induction n generalizing input l with
  | zero =>
    obtain ⟨rfl, rfl⟩ := Reader.pure_eq_ok.mp hread
    exact ⟨rfl, .pure input⟩
  | succ n ih =>
    obtain ⟨a, mid, ha, hread⟩ := Reader.bind_eq_ok.mp hread
    obtain ⟨as, mid', has, hread⟩ := Reader.bind_eq_ok.mp hread
    obtain ⟨rfl, rfl⟩ := Reader.pure_eq_ok.mp hread
    obtain ⟨hlength, hspells⟩ := ih has
    exact ⟨congrArg Nat.succ hlength, (h ha).bind hspells⟩

/-- The same of elements whose order is checked. -/
theorem timesInOrder (h : Canonical w r) {inOrder : α → α → Bool} {disorder : ε}
    {previous : Option α} {n : Nat}
    (hread : r.timesInOrder inOrder disorder previous n input = .ok (l, rest)) :
    l.length = n ∧ Spells (l.forM w) input rest := by
  induction n generalizing input l previous with
  | zero =>
    obtain ⟨rfl, rfl⟩ := Reader.pure_eq_ok.mp hread
    exact ⟨rfl, .pure input⟩
  | succ n ih =>
    obtain ⟨a, mid, ha, hread⟩ := Reader.bind_eq_ok.mp hread
    split at hread
    · obtain ⟨as, mid', has, hread⟩ := Reader.bind_eq_ok.mp hread
      obtain ⟨rfl, rfl⟩ := Reader.pure_eq_ok.mp hread
      obtain ⟨hlength, hspells⟩ := ih has
      exact ⟨congrArg Nat.succ hlength, (h ha).bind hspells⟩
    · cases hread

/-- The same of elements whose readers know their positions. -/
theorem timesFrom {read : Nat → Reader ε α} (h : ∀ position, Canonical w (read position))
    {position n : Nat} (hread : Reader.timesFrom read position n input = .ok (l, rest)) :
    l.length = n ∧ Spells (l.forM w) input rest := by
  induction n generalizing input l position with
  | zero =>
    obtain ⟨rfl, rfl⟩ := Reader.pure_eq_ok.mp hread
    exact ⟨rfl, .pure input⟩
  | succ n ih =>
    obtain ⟨a, mid, ha, hread⟩ := Reader.bind_eq_ok.mp hread
    obtain ⟨as, mid', has, hread⟩ := Reader.bind_eq_ok.mp hread
    obtain ⟨rfl, rfl⟩ := Reader.pure_eq_ok.mp hread
    obtain ⟨hlength, hspells⟩ := ih has
    exact ⟨congrArg Nat.succ hlength, (h position ha).bind hspells⟩

end Canonical

/-- Every element that is read has the property. -/
theorem Yields.times {r : Reader ε α} {P : α → Prop} (h : Yields r P) (n : Nat) :
    Yields (r.times n) fun l => ∀ a ∈ l, P a := by
  induction n with
  | zero =>
    intro input l rest hread
    obtain ⟨rfl, -⟩ := Reader.pure_eq_ok.mp hread
    exact fun a ha => by cases ha
  | succ n ih =>
    intro input l rest hread
    obtain ⟨a, mid, ha, hread⟩ := Reader.bind_eq_ok.mp hread
    obtain ⟨as, mid', has, hread⟩ := Reader.bind_eq_ok.mp hread
    obtain ⟨rfl, -⟩ := Reader.pure_eq_ok.mp hread
    intro b hb
    rcases List.mem_cons.mp hb with rfl | hb
    · exact h ha
    · exact ih has b hb

/-- The same of elements whose order is checked. -/
theorem Yields.timesInOrder {r : Reader ε α} {P : α → Prop} (h : Yields r P)
    {inOrder : α → α → Bool} {disorder : ε} (previous : Option α) (n : Nat) :
    Yields (r.timesInOrder inOrder disorder previous n) fun l => ∀ a ∈ l, P a := by
  induction n generalizing previous with
  | zero =>
    intro input l rest hread
    obtain ⟨rfl, -⟩ := Reader.pure_eq_ok.mp hread
    exact fun a ha => by cases ha
  | succ n ih =>
    intro input l rest hread
    obtain ⟨a, mid, ha, hread⟩ := Reader.bind_eq_ok.mp hread
    split at hread
    · obtain ⟨as, mid', has, hread⟩ := Reader.bind_eq_ok.mp hread
      obtain ⟨rfl, -⟩ := Reader.pure_eq_ok.mp hread
      intro b hb
      rcases List.mem_cons.mp hb with rfl | hb
      · exact h ha
      · exact ih (some a) has b hb
    · cases hread

/-- The same of elements whose readers know their positions. -/
theorem Yields.timesFrom {read : Nat → Reader ε α} {P : α → Prop}
    (h : ∀ position, Yields (read position) P) (position n : Nat) :
    Yields (Reader.timesFrom read position n) fun l => ∀ a ∈ l, P a := by
  induction n generalizing position with
  | zero =>
    intro input l rest hread
    obtain ⟨rfl, -⟩ := Reader.pure_eq_ok.mp hread
    exact fun a ha => by cases ha
  | succ n ih =>
    intro input l rest hread
    obtain ⟨a, mid, ha, hread⟩ := Reader.bind_eq_ok.mp hread
    obtain ⟨as, mid', has, hread⟩ := Reader.bind_eq_ok.mp hread
    obtain ⟨rfl, -⟩ := Reader.pure_eq_ok.mp hread
    intro b hb
    rcases List.mem_cons.mp hb with rfl | hb
    · exact h position ha
    · exact ih (position + 1) has b hb

end Codec
