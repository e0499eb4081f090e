import PromiseDb.Storage.CanonicalReaders
import PromiseDb.Storage.TransitionRoundTrip

/-!
# Accepted lengths

A reader bounds every length that it reads, so that the lengths in whatever it accepts are within
its bounds.  Together with the round trips, which need exactly these bounds, this says when a
value that was written is accepted: the conditions of the round trips are not only enough but also
necessary.
-/

namespace PromiseDb

open Codec

section Limits

variable {limits : ReaderLimits}

/-! ## Strings and identities -/

/-- A count that was read fits its limit. -/
theorem yields_count (field : String) :
    Yields (Reader.count limits field) (CountFits limits) := fun _ _ _ h =>
  ⟨count_lt h, (count_eq_ok h).2⟩

/-- The length of a string that was read is its length prefix. -/
theorem yields_string (field : String) :
    Yields (Reader.string limits field) (StringFits limits) := by
  intro input s rest h
  have hlimit := (string_eq_ok h).2
  obtain ⟨length, mid, hcount, h⟩ := Reader.bind_eq_ok.mp h
  split at h
  · obtain ⟨bytes, mid', htake, h⟩ := Reader.bind_eq_ok.mp h
    obtain ⟨hvalue, -⟩ := Reader.lift_eq_ok.mp h
    obtain ⟨rfl, -⟩ := Reader.take_eq_ok.mp htake
    obtain rfl := utf8_of_fromUTF8? (Except.elim_eq_ok.mp hvalue)
    exact ⟨yields_count field hcount, hlimit⟩
  · cases h

/-- The name of a unit that was read fits its limit. -/
theorem yields_unit : Yields (Reader.unit limits) fun unit => StringFits limits unit.name := by
  intro input value rest h
  obtain ⟨name, mid, hname, h⟩ := Reader.bind_eq_ok.mp h
  obtain ⟨scale, mid', -, h⟩ := Reader.bind_eq_ok.mp h
  obtain ⟨hnew, -⟩ := domain_eq_ok h
  obtain ⟨rfl, -⟩ := ResourceUnit.new_eq_ok.mp hnew
  exact yields_string _ hname

/-- The strings of a pool that was read. -/
theorem yields_poolStrings : Yields (Reader.resourcePool limits) fun pool =>
    StringFits limits pool.displayName ∧ StringFits limits pool.unit.name := by
  intro input value rest h
  obtain ⟨id, r₁, -, h⟩ := Reader.bind_eq_ok.mp h
  obtain ⟨name, r₂, hname, h⟩ := Reader.bind_eq_ok.mp h
  obtain ⟨unit, r₃, hunit, h⟩ := Reader.bind_eq_ok.mp h
  obtain ⟨curve, r₄, -, h⟩ := Reader.bind_eq_ok.mp h
  obtain ⟨rfl, -⟩ := Reader.pure_eq_ok.mp h
  exact ⟨yields_string _ hname, yields_unit hunit⟩

/-- As many promise ids were read as fit the limit. -/
theorem yields_ids (field : String) :
    Yields (Reader.ids limits field) fun ids => CountFits limits ids.length := by
  intro input value rest h
  obtain ⟨count, mid, hcount, h⟩ := Reader.bind_eq_ok.mp h
  obtain ⟨rfl, -⟩ := canonical_promiseId.timesInOrder h
  exact yields_count field hcount

/-! ## Conflicts and deficits -/

/-- The ids of a conflict that was read fit the limit. -/
theorem yields_conflict : Yields (Reader.conflict limits) fun conflict =>
    CountFits limits conflict.conflictingPromiseIds.length := by
  intro input value rest h
  obtain ⟨id, r₁, -, h⟩ := Reader.bind_eq_ok.mp h
  obtain ⟨interval, r₂, -, h⟩ := Reader.bind_eq_ok.mp h
  obtain ⟨required, r₃, -, h⟩ := Reader.bind_eq_ok.mp h
  obtain ⟨available, r₄, -, h⟩ := Reader.bind_eq_ok.mp h
  obtain ⟨deficit, r₅, -, h⟩ := Reader.bind_eq_ok.mp h
  obtain ⟨ids, r₆, hids, h⟩ := Reader.bind_eq_ok.mp h
  obtain ⟨hrestore, -⟩ := orCorrupt_eq_ok h
  unfold AvailabilityConflict.restore at hrestore
  split at hrestore
  · cases hrestore
    exact yields_ids _ hids
  · cases hrestore

/-- The conflicts that were read fit the limit. -/
theorem yields_conflicts : Yields (Reader.conflicts limits) (ConflictsFit limits) := by
  intro input value rest h
  obtain ⟨count, mid, hcount, h⟩ := Reader.bind_eq_ok.mp h
  split at h
  · cases h
  · obtain ⟨rfl, -⟩ := canonical_conflict.times h
    exact ⟨yields_count _ hcount, yields_conflict.times _ h⟩

/-- The affected promises of a deficit that was read fit the limit. -/
theorem yields_deficit : Yields (Reader.deficit limits) fun deficit =>
    CountFits limits deficit.affectedPromiseIds.length := by
  intro input value rest h
  obtain ⟨id, r₁, -, h⟩ := Reader.bind_eq_ok.mp h
  obtain ⟨interval, r₂, -, h⟩ := Reader.bind_eq_ok.mp h
  obtain ⟨quantity, r₃, -, h⟩ := Reader.bind_eq_ok.mp h
  obtain ⟨ids, r₄, hids, h⟩ := Reader.bind_eq_ok.mp h
  obtain ⟨hrestore, -⟩ := orCorrupt_eq_ok h
  unfold CapacityDeficit.restore at hrestore
  split at hrestore
  · cases hrestore
    exact yields_ids _ hids
  · cases hrestore

/-- The deficits of an outcome, the promises of each and all affected promises. -/
theorem yields_capacityOutcome : Yields (Reader.capacityOutcome limits) fun outcome =>
    (CommandResult.capacityRevised outcome).LengthsFit limits := by
  intro input value rest h
  obtain ⟨sequence, r₁, -, h⟩ := Reader.bind_eq_ok.mp h
  obtain ⟨count, r₂, hcount, h⟩ := Reader.bind_eq_ok.mp h
  obtain ⟨deficits, r₃, hdeficits, h⟩ := Reader.bind_eq_ok.mp h
  obtain ⟨ids, r₄, hids, h⟩ := Reader.bind_eq_ok.mp h
  obtain ⟨hrestore, -⟩ := orCorrupt_eq_ok h
  unfold CapacityRevisionOutcome.restore at hrestore
  split at hrestore
  · cases hrestore
    obtain ⟨rfl, -⟩ := canonical_deficit.times hdeficits
    exact ⟨yields_count _ hcount, yields_ids _ hids, yields_deficit.times _ hdeficits⟩
  · cases hrestore

/-- The conflicts of an alternative that was read fit the limit. -/
theorem yields_choiceConflict (position : Nat) :
    Yields (Reader.choiceConflict limits position) fun conflict =>
      ConflictsFit limits conflict.conflicts := by
  intro input value rest h
  obtain ⟨index, r₁, -, h⟩ := Reader.bind_eq_ok.mp h
  split at h
  · cases h
  · obtain ⟨conflicts, r₂, hconflicts, h⟩ := Reader.bind_eq_ok.mp h
    obtain ⟨hrestore, -⟩ := orCorrupt_eq_ok h
    unfold ChoiceConflict.restore at hrestore
    split at hrestore
    · cases hrestore
      exact yields_conflicts hconflicts
    · cases hrestore

/-! ## Responses -/

/-- The lengths in the outcome of a hold that was read fit the limits. -/
theorem yields_holdOutcome : Yields (Reader.holdOutcome limits) fun outcome =>
    (CommandResult.holdCompleted outcome).LengthsFit limits := by
  intro input value rest h
  obtain ⟨tag, r₁, -, h⟩ := Reader.bind_eq_ok.mp h
  split at h
  · obtain ⟨id, r₂, -, h⟩ := Reader.bind_eq_ok.mp h
    obtain ⟨rfl, -⟩ := Reader.pure_eq_ok.mp h
    trivial
  · obtain ⟨conflicts, r₂, hconflicts, h⟩ := Reader.bind_eq_ok.mp h
    obtain ⟨rfl, -⟩ := Reader.pure_eq_ok.mp h
    exact yields_conflicts hconflicts
  · cases h

/-- The alternative that was taken, or the conflicts of all alternatives. -/
theorem yields_choiceOutcome : Yields (Reader.choiceOutcome limits) fun outcome =>
    (CommandResult.choiceCompleted outcome).LengthsFit limits ∧
      (CommandResult.choiceCompleted outcome).NumbersFit limits := by
  intro input value rest h
  obtain ⟨tag, r₁, -, h⟩ := Reader.bind_eq_ok.mp h
  split at h
  · obtain ⟨id, r₂, -, h⟩ := Reader.bind_eq_ok.mp h
    obtain ⟨index, r₃, hindex, h⟩ := Reader.bind_eq_ok.mp h
    obtain ⟨rfl, -⟩ := Reader.pure_eq_ok.mp h
    exact ⟨trivial, yields_count _ hindex⟩
  · obtain ⟨count, r₂, hcount, h⟩ := Reader.bind_eq_ok.mp h
    split at h
    · cases h
    · obtain ⟨values, r₃, hvalues, h⟩ := Reader.bind_eq_ok.mp h
      obtain ⟨rfl, -⟩ := Reader.pure_eq_ok.mp h
      obtain ⟨rfl, -⟩ := Canonical.timesFrom canonical_choiceConflict hvalues
      exact ⟨⟨yields_count _ hcount, Yields.timesFrom yields_choiceConflict _ _ hvalues⟩, trivial⟩
  · cases h

/-- The lengths in the outcome of a replacement that was read fit the limits. -/
theorem yields_replaceOutcome : Yields (Reader.replaceOutcome limits) fun outcome =>
    (CommandResult.promiseReplaced outcome).LengthsFit limits := by
  intro input value rest h
  obtain ⟨tag, r₁, -, h⟩ := Reader.bind_eq_ok.mp h
  split at h
  · obtain ⟨id, r₂, -, h⟩ := Reader.bind_eq_ok.mp h
    obtain ⟨version, r₃, -, h⟩ := Reader.bind_eq_ok.mp h
    obtain ⟨rfl, -⟩ := Reader.pure_eq_ok.mp h
    trivial
  · obtain ⟨conflicts, r₂, hconflicts, h⟩ := Reader.bind_eq_ok.mp h
    obtain ⟨rfl, -⟩ := Reader.pure_eq_ok.mp h
    exact yields_conflicts hconflicts
  · cases h

/-- A number of expired holds has eight bytes. -/
theorem yields_expiredCount : Yields Reader.expiredCount fun count => count < 2 ^ 64 := by
  intro input value rest h
  obtain ⟨number, mid, -, h⟩ := Reader.bind_eq_ok.mp h
  obtain ⟨rfl, -⟩ := Reader.pure_eq_ok.mp h
  have hrange := number.property
  omega

/-- The lengths and the numbers of a result that was read fit. -/
theorem yields_result : Yields (Reader.result limits) fun result =>
    result.LengthsFit limits ∧ result.NumbersFit limits := by
  intro input value rest h
  obtain ⟨tag, mid, -, h⟩ := Reader.bind_eq_ok.mp h
  split at h
  · obtain ⟨id, r₁, -, h⟩ := Reader.bind_eq_ok.mp h
    obtain ⟨rfl, -⟩ := Reader.pure_eq_ok.mp h
    exact ⟨trivial, trivial⟩
  · obtain ⟨outcome, r₁, houtcome, h⟩ := Reader.bind_eq_ok.mp h
    obtain ⟨rfl, -⟩ := Reader.pure_eq_ok.mp h
    exact ⟨yields_capacityOutcome houtcome, trivial⟩
  · obtain ⟨outcome, r₁, houtcome, h⟩ := Reader.bind_eq_ok.mp h
    obtain ⟨rfl, -⟩ := Reader.pure_eq_ok.mp h
    exact ⟨yields_holdOutcome houtcome, trivial⟩
  · obtain ⟨outcome, r₁, houtcome, h⟩ := Reader.bind_eq_ok.mp h
    obtain ⟨rfl, -⟩ := Reader.pure_eq_ok.mp h
    exact yields_choiceOutcome houtcome
  · obtain ⟨outcome, r₁, -, h⟩ := Reader.bind_eq_ok.mp h
    obtain ⟨rfl, -⟩ := Reader.pure_eq_ok.mp h
    exact ⟨trivial, trivial⟩
  · obtain ⟨id, r₁, -, h⟩ := Reader.bind_eq_ok.mp h
    obtain ⟨version, r₂, -, h⟩ := Reader.bind_eq_ok.mp h
    obtain ⟨rfl, -⟩ := Reader.pure_eq_ok.mp h
    exact ⟨trivial, trivial⟩
  · obtain ⟨id, r₁, -, h⟩ := Reader.bind_eq_ok.mp h
    obtain ⟨version, r₂, -, h⟩ := Reader.bind_eq_ok.mp h
    obtain ⟨rfl, -⟩ := Reader.pure_eq_ok.mp h
    exact ⟨trivial, trivial⟩
  · obtain ⟨outcome, r₁, houtcome, h⟩ := Reader.bind_eq_ok.mp h
    obtain ⟨rfl, -⟩ := Reader.pure_eq_ok.mp h
    exact ⟨yields_replaceOutcome houtcome, trivial⟩
  · obtain ⟨count, r₁, hcount, h⟩ := Reader.bind_eq_ok.mp h
    obtain ⟨rfl, -⟩ := Reader.pure_eq_ok.mp h
    exact ⟨trivial, yields_expiredCount hcount⟩
  · cases h

/-- The lengths in a response that was read. -/
theorem yields_response : Yields (Reader.response limits) fun response =>
    ResponseFits limits response ∧ ResponseNumbersFit limits response := by
  intro input value rest h
  obtain ⟨tag, mid, -, h⟩ := Reader.bind_eq_ok.mp h
  split at h
  · obtain ⟨result, r₁, hresult, h⟩ := Reader.bind_eq_ok.mp h
    obtain ⟨rfl, -⟩ := Reader.pure_eq_ok.mp h
    exact yields_result hresult
  · obtain ⟨error, r₁, -, h⟩ := Reader.bind_eq_ok.mp h
    obtain ⟨rfl, -⟩ := Reader.pure_eq_ok.mp h
    exact ⟨trivial, trivial⟩
  · cases h

end Limits

end PromiseDb
