import PromiseDb.Engine.Batch

/-!
# Publishing a batch

A group of commands is prepared on a copy of the state and then published at once, while a command
that is applied directly changes the state in place.  The two paths look an identity up at different
places and advance the revision at different times.  As long as there are revisions left for the
commands that are executed, both lead to the same responses and to the same engine.
-/

namespace PromiseDb

open EngineState

namespace Engine

variable {blake3 : List UInt8 → CommandHash}

/-- The revisions go up to this one. -/
def lastRevision : ℤ := 340282366920938463463374607431768211455

/-- The next revision is the number after the current one. -/
theorem nextRevision_eq_some {e : Engine} {next : PublicationRevision} :
    e.nextRevision = some next ↔ e.publicationRevision.val + 1 = next.val :=
  BoundedInt.checkedAdd_eq_some

/-- There is a next revision below the last one. -/
theorem exists_nextRevision {e : Engine} (h : e.publicationRevision.val < lastRevision) :
    ∃ next, e.nextRevision = some next ∧ next.val = e.publicationRevision.val + 1 := by
  have hnonneg := e.publicationRevision.property.1
  obtain ⟨next, hnext⟩ : ∃ next : PublicationRevision, e.publicationRevision.val + 1 = next.val :=
    ⟨⟨_, by omega, h⟩, rfl⟩
  exact ⟨next, nextRevision_eq_some.mpr hnext, hnext.symm⟩

/-- Applying commands one after another executes them one after another, when there are revisions
left for those that are executed. -/
theorem applyAll_eq_executeAll {e : Engine} {commands : List (Command × Timestamp)}
    (h : e.publicationRevision.val + (firstSeen blake3 e.state commands).length ≤ lastRevision) :
    ∃ revision : PublicationRevision,
      revision.val = e.publicationRevision.val + (firstSeen blake3 e.state commands).length ∧
      applyAll blake3 e commands = ((executeAll blake3 e.state commands).1,
        ⟨(executeAll blake3 e.state commands).2, revision⟩) := by
  induction commands generalizing e with
  | nil => exact ⟨e.publicationRevision, (add_zero _).symm, rfl⟩
  | cons entry rest ih =>
    obtain ⟨command, now⟩ := entry
    rw [applyAll, executeAll, executeCommand, firstSeen] at *
    obtain ⟨record, hrecord, happly⟩ | ⟨hnew, hnone, -⟩ | ⟨next, hnew, hnext, happly⟩ :=
      @apply_cases blake3 e command now
    · rw [hrecord] at h ⊢
      obtain ⟨revision, hrevision, hrest⟩ := ih h
      refine ⟨revision, hrevision, ?_⟩
      rw [happly]
      dsimp only
      rw [hrest]
    · rw [hnew] at h
      rw [List.length_cons, Nat.cast_succ] at h
      obtain ⟨next, hnext, -⟩ := exists_nextRevision (e := e) (by omega)
      rw [hnone] at hnext
      cases hnext
    · rw [hnew] at h ⊢
      have hvalue := nextRevision_eq_some.mp hnext
      rw [List.length_cons, Nat.cast_succ] at h ⊢
      have hleft : next.val + (firstSeen blake3 (executeOnce blake3 e.state command now).2
          rest).length ≤ lastRevision := by
        omega
      obtain ⟨revision, hrevision, hrest⟩ :=
        ih (e := ⟨(executeOnce blake3 e.state command now).2, next⟩) hleft
      refine ⟨revision, ?_, ?_⟩
      · rw [hrevision, ← hvalue]
        dsimp only
        ring
      · rw [happly]
        dsimp only
        rw [hrest]

/-- Nothing is executed when no item is durable, and then the state stays as it is. -/
theorem executeAll_of_firstSeen_nil {s : EngineState} {commands : List (Command × Timestamp)}
    (h : firstSeen blake3 s commands = []) : (executeAll blake3 s commands).2 = s := by
  induction commands with
  | nil => rfl
  | cons entry rest ih =>
    obtain ⟨command, now⟩ := entry
    rw [firstSeen] at h
    rw [executeAll, executeCommand]
    cases hrecord : s.idempotencyRecords[command.identity]? with
    | none =>
      rw [hrecord] at h
      cases h
    | some record =>
      rw [hrecord] at h
      exact ih h

/-- Publishing a prepared batch executes its commands one after another. -/
theorem publishBatch_eq {e : Engine} {commands : List (Command × Timestamp)}
    {prepared : PreparedBatch} (h : prepareBatch blake3 e commands = .ok prepared) :
    ∃ revision : PublicationRevision,
      revision.val = e.publicationRevision.val + (firstSeen blake3 e.state commands).length ∧
      publishBatch e prepared = ((executeAll blake3 e.state commands).1,
        ⟨(executeAll blake3 e.state commands).2, revision⟩) := by
  obtain ⟨hresponses, hitems, hcandidate⟩ := prepareBatch_eq_ok h
  obtain ⟨-, hrevision⟩ := prepareBatch_revision h
  unfold publishBatch
  by_cases hnone : firstSeen blake3 e.state commands = []
  · -- nothing is published, and nothing has changed
    refine ⟨e.publicationRevision, by rw [hnone]; exact (add_zero _).symm, ?_⟩
    rw [hnone, List.map_nil] at hitems
    rw [executeAll_of_firstSeen_nil hnone, hitems, hresponses]
    cases prepared.candidate <;> rfl
  · have hne : commands ≠ [] := by
      rintro rfl
      exact hnone rfl
    have hdurable : prepared.durableItems ≠ [] := by
      rw [hitems]
      exact mt List.map_eq_nil_iff.mp hnone
    refine ⟨prepared.nextRevision, hrevision, ?_⟩
    rw [hcandidate hne, hresponses]
    exact if_pos hdurable

/-- A batch can be prepared when there are revisions left for its executed commands. -/
theorem exists_prepareBatch {e : Engine} {commands : List (Command × Timestamp)}
    (h : e.publicationRevision.val + (firstSeen blake3 e.state commands).length ≤ lastRevision) :
    ∃ prepared, prepareBatch blake3 e commands = .ok prepared := by
  unfold prepareBatch
  split
  · exact ⟨_, rfl⟩
  · have hnonneg := e.publicationRevision.property.1
    obtain ⟨next, hnext⟩ : ∃ next : PublicationRevision,
        BoundedInt.ofInt? (e.publicationRevision.val + (firstSeen blake3 e.state commands).length) =
          some next :=
      ⟨_, BoundedInt.ofInt?_of_mem ⟨by omega, h⟩⟩
    rw [size_newIdentities, hnext]
    exact ⟨_, rfl⟩

/-- A prepared batch can be published on the engine that it was prepared on. -/
theorem canPublish_prepareBatch {e : Engine} {commands : List (Command × Timestamp)}
    {prepared : PreparedBatch} (h : prepareBatch blake3 e commands = .ok prepared) :
    canPublish e prepared = .ok () := by
  unfold canPublish
  rw [(prepareBatch_revision h).1]
  exact if_neg fun hstale => hstale.2 rfl

/-- Preparing and publishing a batch leads to the responses and the engine that its commands lead
to when they are applied one after another, as long as the commands that are executed do not exhaust
the revisions. -/
theorem publishBatch_eq_applyAll {e : Engine} {commands : List (Command × Timestamp)}
    (h : e.publicationRevision.val + (firstSeen blake3 e.state commands).length ≤ lastRevision) :
    ∃ prepared, prepareBatch blake3 e commands = .ok prepared ∧
      canPublish e prepared = .ok () ∧
      publishBatch e prepared = applyAll blake3 e commands := by
  obtain ⟨prepared, hprepared⟩ := exists_prepareBatch h
  refine ⟨prepared, hprepared, canPublish_prepareBatch hprepared, ?_⟩
  obtain ⟨revision, hrevision, hpublished⟩ := publishBatch_eq hprepared
  obtain ⟨revision', hrevision', happlied⟩ := applyAll_eq_executeAll h
  obtain rfl : revision = revision' := Subtype.ext (hrevision.trans hrevision'.symm)
  rw [hpublished, happlied]

/-- The sample commands, sent twice in one group. -/
theorem publishBatch_eq_applyAll_sample :
    ∃ prepared, prepareBatch sampleHash Engine.empty (sampleCommands ++ sampleCommands) =
      .ok prepared ∧ prepared.responses.length = 4 ∧
      publishBatch Engine.empty prepared =
        applyAll sampleHash Engine.empty (sampleCommands ++ sampleCommands) := by
  have hrevision : Engine.empty.publicationRevision.val + (firstSeen sampleHash
      Engine.empty.state (sampleCommands ++ sampleCommands)).length ≤ lastRevision := by
    decide +kernel
  obtain ⟨prepared, hprepared, -, hpublished⟩ := publishBatch_eq_applyAll hrevision
  have hlength : (executeAll sampleHash Engine.empty.state
      (sampleCommands ++ sampleCommands)).1.length = 4 := by
    decide +kernel
  rw [← (prepareBatch_eq_ok hprepared).1] at hlength
  exact ⟨prepared, hprepared, hlength, hpublished⟩

end Engine

end PromiseDb
