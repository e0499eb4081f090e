import PromiseDb.Storage.TransitionRoundTrip

/-!
# Durable items are read back

Everything that a batch makes durable satisfies the checks of the transition decoder: identities
and events are in order, conflicts and deficits add up, histories are valid, and the counts are
bounded by lists of the item or of its command.  Hence an item is read back as it was written,
unless its encoded command does not fit into the length prefix that precedes it.
-/

namespace PromiseDb

namespace EngineState

/-! ## Counts -/

/-- An expiration adds one event. -/
theorem Transition.expire_events {now : Timestamp} {id : PromiseId} {s s' : EngineState}
    (h : Transition now (.expire id) s s') : s'.events.length = s.events.length + 1 := by
  cases h with
  | expire promise next expired restored => exact List.length_append

/-- The expiration loop counts the events that it adds. -/
theorem expireHolds_events {now : Timestamp} {due : List (Timestamp ×ₗ PromiseId)}
    {count n : Nat} {s s' : EngineState} (h : expireHolds now count due s = .ok n s') :
    n + s.events.length = count + s'.events.length := by
  induction due generalizing count s with
  | nil =>
    rw [expireHolds] at h
    obtain ⟨rfl, rfl⟩ := EStateM.Result.ok.inj h
    rfl
  | cons first rest ih =>
    rw [expireHolds] at h
    obtain ⟨e, he⟩ | ⟨s₁, hs₁, hstep⟩ := expireHold_cases (r := expireHold now (ofLex first).2 s) rfl
    · rw [EStateM.bind_of_error he] at h
      cases h
    · rw [EStateM.bind_of_ok hs₁] at h
      have hrest := ih h
      have hone := hstep.expire_events
      omega

/-- The numbers in a result are bounded by the command and by the events that were added. -/
theorem applyOnce_numbers {operation : CommandOperation} {now : Timestamp} {s s' : EngineState}
    {result : CommandResult} (h : applyOnce operation now s = .ok result s')
    (hcommand : operation.LengthsFit)
    (hevents : s'.events.length - s.events.length < 2 ^ 32) :
    result.NumbersFit Reader.transitionLimits := by
  obtain ⟨s₁, -, hcompletes⟩ := applyOnce_cases h
  cases hcompletes with
  | declined hdeclined =>
    cases hdeclined with
    | @processExpirations count =>
      rw [applyOnce] at h
      obtain ⟨e, s', hx, heq⟩ | ⟨n, s', hx, heq⟩ := map_cases h
      · cases heq
      · cases heq
        have hcount := expireHolds_events hx
        show count < 2 ^ 64
        omega
    | hold refused => trivial
    | holdOneOf refused positions => trivial
    | holdFirstSlot exhausted => trivial
    | replace promise next replaced givenBack refused => trivial
  | accepted hstep answers =>
    cases answers with
    | @holdOneOf id choice expiresAt index lt =>
      have hlt : choice.alternatives.length < 2 ^ 32 := hcommand.1.1
      refine ⟨lt.trans hlt, decide_eq_true ?_⟩
      show index ≤ 18446744073709551615
      omega
    | createResourcePool => trivial
    | reviseCapacity strict => trivial
    | hold => trivial
    | holdFirstSlot => trivial
    | commit => trivial
    | release => trivial
    | replace => trivial

end EngineState

namespace Engine

open EngineState

variable {blake3 : List UInt8 → CommandHash}

/-! ## What a batch makes durable -/

/-- Changed values are listed in the order of their identities. -/
theorem changed_sorted {K V : Type} [LinearOrder K] [Std.TransCmp (compare : K → K → Ordering)]
    {m : OrderedMap K V} {id : V → K} (hid : ∀ (k : K) (v : V), m[k]? = some v → id v = k)
    (p : K × V → Bool) :
    ((m.toList.filter p).map Prod.snd).Pairwise fun a b => id a < id b := by
  rw [List.pairwise_map]
  have hsorted := (OrderedMap.toList_sorted m).filter p
  refine hsorted.imp_of_mem ?_
  intro a b ha hb hab
  rw [hid a.1 a.2 (OrderedMap.mem_toList.mp (List.mem_of_mem_filter ha)),
    hid b.1 b.2 (OrderedMap.mem_toList.mp (List.mem_of_mem_filter hb))]
  exact hab

/-- The effects of a command on a sound state have the structure that the decoder checks. -/
theorem transitionOf_valid (base : EngineState) {s : EngineState} (hs : s.Sound)
    (command : Command) (now : Timestamp) : (transitionOf blake3 base s command now).Valid := by
  have hafter := @sound_executeOnce blake3 s hs command now
  have hsublist : (transitionOf blake3 base s command now).events.Sublist
      (executeOnce blake3 s command now).2.events := List.drop_sublist _ _
  constructor
  · exact (@executeOnce_answer blake3 s hs.index command now).1
  · exact changed_sorted hafter.references.poolIds _
  · exact changed_sorted hafter.references.promiseIds _
  · intro p hp
    obtain ⟨entry, hentry, rfl⟩ := List.mem_map.mp hp
    exact hafter.references.histories entry.1 entry.2
      (OrderedMap.mem_toList.mp (List.mem_of_mem_filter hentry))
  · exact hafter.log.complete.sorted.sublist hsublist
  · exact fun e he => hafter.references.events e (hsublist.subset he)

/-- The counts in the response to a command are bounded. -/
theorem transitionOf_numbers (base s : EngineState) (command : Command) (now : Timestamp)
    (hfits : (transitionOf blake3 base s command now).LengthsFit) :
    ResponseNumbersFit Reader.transitionLimits (transitionOf blake3 base s command now).response := by
  have hevents := hfits.events.1
  have hcommand := hfits.command.operation
  rw [transitionOf, List.length_drop, executeOnce_snd] at hevents
  rw [transitionOf, executeOnce_fst]
  cases hrun : applyOnce command.operation now s with
  | ok result s' =>
    rw [hrun] at hevents
    exact applyOnce_numbers hrun hcommand hevents
  | error error s' => trivial

/-- A transition whose encoded command is too long for its length prefix is refused. -/
theorem encodeTransition_of_long {t : DurableTransition} {commandBytes : List UInt8}
    (hencode : encodeCommand t.command = .ok commandBytes) (hlong : 2 ^ 32 ≤ commandBytes.length) :
    encodeTransition t = .error (.invalidLength "command" commandBytes.length) := by
  have hbytes : Codec.Fails (Writer.bytes "command" commandBytes)
      (.invalidLength "command" commandBytes.length) := (fails_len hlong).bind
  apply Codec.Fails.written
  apply (Codec.Writes.raw [1]).bind_fails
  apply Codec.Fails.lift hencode
  exact hbytes.bind

/-- Everything that an accepted batch makes durable carries the timestamp of its command in all
its events, and is read back as it was written if its strings and collections have fewer than
2^32 elements and its encoded command has fewer than 2^32 bytes; with a longer encoded command it
is refused before anything is written. -/
theorem durable_items_read_back {e : Engine} (h : Reachable blake3 e)
    {commands : List (Command × Timestamp)} {prepared : PreparedBatch}
    (hprepared : prepareBatch blake3 e commands = .ok prepared) :
    ∀ item ∈ prepared.durableItems,
      (∀ event ∈ item.transition.events, event.timestamp = item.timestamp) ∧
      (item.transition.LengthsFit →
        ∃ commandBytes, encodeCommand item.transition.command = .ok commandBytes ∧
          (commandBytes.length < 2 ^ 32 →
            ∃ bytes, encodeTransition item.transition = .ok bytes ∧
              decodeTransition bytes = .ok item.transition) ∧
          (2 ^ 32 ≤ commandBytes.length →
            encodeTransition item.transition =
              .error (.invalidLength "command" commandBytes.length))) := by
  rw [(prepareBatch_eq_ok hprepared).2.1]
  intro item hitem
  obtain ⟨⟨s, command, now⟩, hentry, rfl⟩ := List.mem_map.mp hitem
  have hs : s.Sound := firstSeen_invariant (P := EngineState.Sound)
    (fun s command now hs => sound_executeOnce hs command now) h.sound _ hentry
  refine ⟨fun event hevent => ((transitionOf_events e.state s command now).2 event hevent).1, ?_⟩
  intro hfits
  obtain ⟨commandBytes, hencode, -⟩ := encodeCommand_exists hfits
  refine ⟨commandBytes, hencode, ?_, encodeTransition_of_long hencode⟩
  intro hshort
  have hlength : CountFits Reader.transitionLimits commandBytes.length :=
    ⟨hshort, decide_eq_true (hshort.le.trans (by norm_num [Reader.usizeMax]))⟩
  obtain ⟨bytes, hwrites, hinverts⟩ := roundTrips_transition hfits
    (transitionOf_numbers e.state s command now hfits) (transitionOf_valid e.state hs command now)
    hencode hlength
  exact ⟨bytes, hwrites.written, (complete_of_inverts hinverts).1⟩

/-! ## A command that is too long -/

/-- A string of one-byte letters. -/
theorem length_utf8_replicate (n : Nat) :
    (utf8 (String.ofList (List.replicate n 'a'))).length = n := by
  have hletter : 'a'.utf8Size = 1 := rfl
  rw [utf8, Array.length_toList, String.toUTF8, String.toByteArray_ofList, List.utf8Encode]
  simp [hletter]

/-- A call for expirations. -/
def idleCommand (client : String) : Command := ⟨⟨client⟩, ⟨""⟩, .processExpirations⟩

/-- The effects of a call for expirations when there is nothing to expire. -/
def idleTransition (blake3 : List UInt8 → CommandHash) (client : String) : DurableTransition where
  command := idleCommand client
  clientId := ⟨client⟩
  idempotencyKey := ⟨""⟩
  commandHash := hashOperation blake3 .processExpirations
  response := .ok (.expirationsProcessed 0)
  resourcePools := []
  promises := []
  events := []
  finalSequence := .zero

/-- A batch with one call for expirations, prepared on the empty engine. -/
theorem prepareBatch_idle (client : String) (now : Timestamp) :
    ∃ prepared, prepareBatch blake3 Engine.empty [(idleCommand client, now)] = .ok prepared ∧
      prepared.durableItems = [⟨now, idleTransition blake3 client⟩] := by
  have hidentities :
      (newIdentities blake3 Engine.empty.state [(idleCommand client, now)]).size = 1 := rfl
  cases hprepared : prepareBatch blake3 Engine.empty [(idleCommand client, now)] with
  | ok prepared => exact ⟨prepared, rfl, (prepareBatch_eq_ok hprepared).2.1⟩
  | error e =>
    rw [prepareBatch, if_neg (List.cons_ne_nil _ _), hidentities] at hprepared
    cases hprepared

/-- The lengths in the effects of a call for expirations are those of its client. -/
theorem idleTransition_lengthsFit {client : String} (h : (utf8 client).length < 2 ^ 32) :
    (idleTransition blake3 client).LengthsFit := by
  have hmax : (utf8 client).length ≤ Reader.usizeMax := by
    simp only [Reader.usizeMax]
    omega
  have hnone : CountFits Reader.transitionLimits 0 := by decide
  have hkey : StringFits .unlimited "" ∧ StringFits Reader.transitionLimits "" := by decide
  refine ⟨⟨⟨⟨h, rfl⟩, rfl⟩, hkey.1, trivial⟩, ?_, hkey.2, trivial, hnone, ?_, hnone, ?_, hnone, ?_⟩
  · exact ⟨⟨h, decide_eq_true hmax⟩, decide_eq_true hmax⟩
  · intro pool hpool
    cases hpool
  · intro p hp
    cases hp
  · intro e he
    cases he

/-- The length of an encoded call for expirations. -/
theorem length_encodeCommand_idle {client : String} {bytes : List UInt8}
    (h : (utf8 client).length < 2 ^ 32) (hencode : encodeCommand (idleCommand client) = .ok bytes) :
    bytes.length = (utf8 client).length + 10 := by
  have hempty : (utf8 "").length = 0 := by decide
  obtain ⟨front, hfront, hclient⟩ := @writes_string "client_id" client h
  obtain ⟨back, hback, hkey⟩ := @writes_string "idempotency_key" "" (by decide)
  have hall : Codec.Writes (Writer.command (idleCommand client))
      ([1] ++ (front ++ (back ++ [7]))) := by
    apply (Codec.Writes.raw [1]).bind
    apply hclient.bind
    apply hkey.bind
    exact Codec.Writes.raw [7]
  rw [Except.ok.inj (hencode.symm.trans hall.written)]
  simp only [List.length_append, List.length_cons, List.length_nil, hfront, hback]
  omega

/-- A call for expirations by a client whose identity has 2^32 - 1 bytes is accepted, but its
effects, all strings and collections of which have fewer than 2^32 elements, are not encoded. -/
theorem durable_item_too_long :
    ∃ prepared item, Reachable sampleHash Engine.empty ∧
      prepareBatch sampleHash Engine.empty
        [(idleCommand (String.ofList (List.replicate 4294967295 'a')), sampleTime 0)] =
          .ok prepared ∧
      item ∈ prepared.durableItems ∧ item.transition.LengthsFit ∧
      ¬∃ bytes, encodeTransition item.transition = .ok bytes ∧
        decodeTransition bytes = .ok item.transition := by
  have hlength := length_utf8_replicate 4294967295
  generalize String.ofList (List.replicate 4294967295 'a') = client at *
  have hfits := @idleTransition_lengthsFit sampleHash client (by omega)
  obtain ⟨prepared, hprepared, hitems⟩ := @prepareBatch_idle sampleHash client (sampleTime 0)
  refine ⟨prepared, ⟨sampleTime 0, idleTransition sampleHash client⟩, .empty, hprepared, ?_, hfits,
    ?_⟩
  · rw [hitems]
    exact List.mem_singleton_self _
  · rintro ⟨bytes, hbytes, -⟩
    obtain ⟨commandBytes, hencode, -⟩ := encodeCommand_exists hfits
    have hlong := length_encodeCommand_idle (by omega) hencode
    rw [encodeTransition_of_long hencode (by omega)] at hbytes
    cases hbytes

/-! ## A group of every kind of response -/

/-- How many conflicts or deficits a response lists. -/
def listedIn : CommandResponse → ℕ
  | .ok (.holdCompleted (.unavailable conflicts)) => conflicts.length
  | .ok (.capacityRevised outcome) => outcome.deficits.length
  | _ => 0

/-- The number of events of an item, and of the conflicts or deficits that its response lists. -/
def sampleContents (item : TimestampedTransition) : ℕ × ℕ :=
  (item.transition.events.length, listedIn item.transition.response)

/-- Whether the lengths of an item fit, and its encoded command is short. -/
def fitsChecked (item : TimestampedTransition) : Bool :=
  decide item.transition.LengthsFit &&
    (encodeCommand item.transition.command).toOption.any fun bytes => decide (bytes.length < 2 ^ 32)

/-- The items of the sample group, among them a refused hold with its conflict, a forced revision
with two deficits, and the expiration of a promise, are read back as they were written. -/
theorem durable_items_read_back_sample :
    ∃ prepared, prepareBatch sampleHash sampleEngine sampleGroup = .ok prepared ∧
      prepared.durableItems.map sampleContents =
        [(1, 0), (1, 0), (0, 1), (3, 2), (1, 0), (3, 0), (1, 0)] ∧
      ∀ item ∈ prepared.durableItems,
        (∀ event ∈ item.transition.events, event.timestamp = item.timestamp) ∧
        ∃ bytes, encodeTransition item.transition = .ok bytes ∧
          decodeTransition bytes = .ok item.transition := by
  have hrun : (prepareBatch sampleHash sampleEngine sampleGroup).toOption.map (fun prepared =>
      (prepared.durableItems.map sampleContents, prepared.durableItems.all fitsChecked)) =
        some ([(1, 0), (1, 0), (0, 1), (3, 2), (1, 0), (3, 0), (1, 0)], true) := by
    decide +kernel
  obtain ⟨prepared, hprepared, hchecked⟩ := Option.map_eq_some_iff.mp hrun
  obtain ⟨hcontents, hfits⟩ := Prod.mk.inj hchecked
  have hok := Except.toOption_eq_some.mp hprepared
  refine ⟨prepared, hok, hcontents, fun item hitem => ?_⟩
  obtain ⟨htimestamps, hread⟩ := durable_items_read_back sampleEngine_reachable hok item hitem
  obtain ⟨hlengths, hshort⟩ := Bool.and_eq_true_iff.mp (List.all_eq_true.mp hfits item hitem)
  obtain ⟨commandBytes, hencode, hback, -⟩ := hread (of_decide_eq_true hlengths)
  rw [hencode] at hshort
  exact ⟨htimestamps, hback (of_decide_eq_true hshort)⟩

end Engine

end PromiseDb
