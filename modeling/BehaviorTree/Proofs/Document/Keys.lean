import BehaviorTree.Document.KeyText
import BehaviorTree.Proofs.Document.Drafts

/-!
# Saving and loading sets of access keys

A key is written as an object of its own and read without regard to the other keys.  So the only keys
that a round trip loses are those that can not be written: an interval that is not finite is written
as `null`, and its key is skipped by the next load.
-/

namespace BehaviorTree

open BehaviorTree.Document BehaviorTree.Json BehaviorTree.Number

namespace AccessKey

def interval? : AccessKey → Option Single
  | counterLimit _ _ => none
  | timeLimit _ interval => some interval

/-- Whether the limit of a key is finite. -/
def isFinite (key : AccessKey) : Bool :=
  key.interval?.all Binary.isFinite

end AccessKey

namespace Document

/-! ## Intervals -/

/-- What an interval is read as from the number that is written for it. -/
def rereadInterval (interval : Single) : Except String Single :=
  Decoder.single (.ofBinary .doubleInDocument interval.toDouble)

/-- The number that is written for an interval is read as this interval. -/
def IntervalReadsBack (interval : Single) : Prop :=
  rereadInterval interval = .ok interval

instance (interval : Single) : Decidable (IntervalReadsBack interval) :=
  inferInstanceAs (Decidable (rereadInterval interval = .ok interval))

/-- Why a key is skipped whose interval could not be written. -/
def unwrittenInterval : String :=
  wrongType .null "f32"

theorem ofBinary_of_not_isFinite {interval : Single} (infinite : interval.isFinite = false) :
    Value.ofBinary .doubleInDocument interval.toDouble = .null := by
  cases interval with
  | nan => rfl
  | infinity negative => rfl
  | finite negative place => cases infinite

theorem isReadable_interval {interval : Single}
    (faithful : interval.isFinite = true → IntervalReadsBack interval) (level : Nat) :
    (Value.ofBinary .doubleInDocument interval.toDouble).isReadable level = true := by
  cases finite : interval.isFinite with
  | true => exact isReadable_of_single (faithful finite) finite level
  | false =>
      rw [ofBinary_of_not_isFinite finite]
      rfl

/-! ## Keys -/

theorem accessKey_counterLimit (name : String) (maxAccessCount : Int32) :
    accessKey (keyToValue (.counterLimit name maxAccessCount)).sorted =
      .ok (.counterLimit name maxAccessCount) := by
  have sorted : (keyToValue (.counterLimit name maxAccessCount)).sorted =
      .object [("CounterLimit", .object (present [("Key", some (.text name)),
        ("MaxAccessCount", some (.ofInt maxAccessCount.toInt))]))] := by
    simp only [keyToValue, Value.sorted, sortedMembers, insertMember, String.reduceLT,
      String.reduceEq, ↓reduceIte]
    rfl
  have decoded : CounterLimitRecord.shape.decode (.object (present [("Key", some (.text name)),
      ("MaxAccessCount", some (.ofInt maxAccessCount.toInt))])) = .ok ⟨name, maxAccessCount⟩ := by
    rw [Shape.decode_present]
    · refine foldlM_cons_of_ok (Shape.setSlot_read rfl rfl) ?_
      exact foldlM_cons_of_ok
        (Shape.setSlot_read rfl (map_of_ok (decode_count maxAccessCount))) rfl
    · simp [CounterLimitRecord.shape, Field.of]
  rw [sorted]
  change (CounterLimitRecord.shape.decode _ >>= fun record =>
    pure (AccessKey.counterLimit record.key record.maxAccessCount)) = _
  rw [decoded]
  rfl

theorem setSlot_interval (record : TimeLimitRecord) (interval : Value) :
    TimeLimitRecord.shape.setSlot record ("TimeInterval", some interval) =
      (Decoder.single interval).map fun timeInterval => { record with timeInterval } :=
  rfl

theorem accessKey_timeLimit (name : String) (interval : Single) :
    accessKey (keyToValue (.timeLimit name interval)).sorted =
      (rereadInterval interval).map (.timeLimit name) := by
  have sorted : (keyToValue (.timeLimit name interval)).sorted =
      .object [("TimeLimit", .object (present [("Key", some (.text name)),
        ("TimeInterval", some (.ofBinary .doubleInDocument interval.toDouble))]))] := by
    simp only [keyToValue, Value.sorted, sortedMembers, insertMember, String.reduceLT,
      String.reduceEq, ↓reduceIte, sorted_ofBinary]
    rfl
  have decoded : TimeLimitRecord.shape.decode (.object (present [("Key", some (.text name)),
      ("TimeInterval", some (.ofBinary .doubleInDocument interval.toDouble))])) =
      (rereadInterval interval).map fun interval => ⟨name, interval⟩ := by
    rw [Shape.decode_present]
    · refine foldlM_cons_of_ok (Shape.setSlot_read rfl rfl) ?_
      rw [List.foldlM_cons, setSlot_interval, rereadInterval]
      cases Decoder.single (.ofBinary .doubleInDocument interval.toDouble) <;> rfl
    · simp [TimeLimitRecord.shape, Field.of]
  rw [sorted]
  change (TimeLimitRecord.shape.decode _ >>= fun record =>
    pure (AccessKey.timeLimit record.key record.timeInterval)) = _
  rw [decoded]
  cases rereadInterval interval <;> rfl

/-- A key is read as it was if its limit is finite, and skipped if it is not. -/
theorem accessKey_keyToValue {key : AccessKey}
    (faithful : ∀ interval ∈ key.interval?, interval.isFinite = true →
      IntervalReadsBack interval) :
    accessKey (keyToValue key).sorted =
      if key.isFinite then .ok key else .error unwrittenInterval := by
  cases key with
  | counterLimit name maxAccessCount => exact accessKey_counterLimit name maxAccessCount
  | timeLimit name interval =>
      rw [accessKey_timeLimit, AccessKey.isFinite, AccessKey.interval?, Option.all_some]
      cases finite : interval.isFinite with
      | true =>
          have readsBack : rereadInterval interval = .ok interval := faithful interval rfl finite
          rw [readsBack]
          rfl
      | false =>
          rw [rereadInterval, ofBinary_of_not_isFinite finite]
          rfl

theorem isReadable_keyToValue {key : AccessKey}
    (faithful : ∀ interval ∈ key.interval?, interval.isFinite = true →
      IntervalReadsBack interval) :
    (keyToValue key).isReadable 2 = true := by
  cases key with
  | counterLimit name maxAccessCount =>
      have lowest := maxAccessCount.le_toInt
      have highest := maxAccessCount.toInt_lt
      have count : (Value.ofInt maxAccessCount.toInt).isReadable 4 = true :=
        isReadable_ofInt 4 (by omega) (by omega)
      simp [keyToValue, Value.isReadable, readableMembers, deepestNesting, count]
  | timeLimit name interval =>
      have readable := isReadable_interval (faithful interval rfl) 4
      simp [keyToValue, Value.isReadable, readableMembers, deepestNesting, readable]

/-! ## Documents -/

theorem tokens_keysToValue (set : AccessKeySet) :
    (keysToValue set).tokens =
      .openObject :: .text (some "Name") :: .colon :: .text (some set.name) ::
        .comma :: .text (some "Count") :: .colon :: .number (.ofInt set.keys.length) ::
        .comma :: .text (some "Keys") :: .colon ::
          ((Value.list (set.keys.map keyToValue)).tokens ++ [.closeObject]) := by
  simp only [keysToValue, Value.ofInt, Value.tokens, remainingMemberTokens, List.cons_append,
    List.nil_append, List.append_nil]

theorem decode_size {size : Nat} (small : size < 2 ^ 64) :
    Decoder.size (.ofInt size) = .ok size := by
  rw [Decoder.size, decode_integer "usize" ⟨by omega, by omega⟩ ⟨by omega, by omega⟩]
  rfl

theorem head_ofInt {size : Nat} (small : size < 2 ^ 64) :
    (Token.number (.ofInt size)).head = .ok (.ofInt size) := by
  rw [Token.head, Numeral.overflows, quantity_ofInt (by omega) (by omega)]
  rfl

/-- The text of a set is read as its draft. -/
theorem read_save_keys {set : AccessKeySet} (small : set.keys.length < 2 ^ 64)
    (readable : (Value.list (set.keys.map keyToValue)).isReadable 1 = true) :
    KeyDraft.shape.read set.save =
      .ok ⟨set.name, set.keys.length, set.keys.map (Value.sorted ∘ keyToValue)⟩ := by
  rw [Shape.read, AccessKeySet.save, tokens_render, tokens_keysToValue, Shape.readTokens_member
    (Shape.readMember_single _ List.not_mem_nil rfl rfl rfl rfl)]
  simp only [List.length_cons]
  rw [Shape.readMembers_comma (Shape.readMember_single _ (by decide) rfl rfl (head_ofInt small)
    (map_of_ok (decode_size small)))]
  rw [Shape.readMembers_list _ (by decide) rfl rfl rfl, if_pos readable, sortedItems_eq_map,
    List.map_map]
  rfl

end Document

namespace AccessKeySet

/-! ## Round trips -/

variable {set : AccessKeySet}

theorem reloaded_keys (faithful : ∀ key ∈ set.keys, ∀ interval ∈ key.interval?,
    interval.isFinite = true → IntervalReadsBack interval) :
    ((set.keys.map (Value.sorted ∘ keyToValue)).filterMap fun value =>
      (accessKey value).toOption) = set.keys.filter AccessKey.isFinite := by
  rw [List.filterMap_map, ← List.filterMap_eq_filter]
  apply List.filterMap_congr
  intro key member
  rw [Function.comp_apply, Function.comp_apply, accessKey_keyToValue (faithful key member)]
  cases finite : key.isFinite <;> simp [finite, Except.toOption, Option.guard]

theorem reloaded_skipped (faithful : ∀ key ∈ set.keys, ∀ interval ∈ key.interval?,
    interval.isFinite = true → IntervalReadsBack interval) :
    ((set.keys.map (Value.sorted ∘ keyToValue)).zipIdx.filterMap fun (value, index) =>
      match accessKey value with
      | .ok _ => none
      | .error reason => some (SkippedKey.mk index reason)) =
      (set.keys.zipIdx.filter fun entry => !entry.1.isFinite).map
        fun entry => ⟨entry.2, unwrittenInterval⟩ := by
  rw [List.zipIdx_map, List.filterMap_map, ← List.filterMap_eq_map, List.filterMap_filter]
  apply List.filterMap_congr
  rintro ⟨key, index⟩ place
  have member : key ∈ set.keys := List.fst_mem_of_mem_zipIdx place
  simp only [Function.comp_apply, Prod.map_apply, id_eq,
    accessKey_keyToValue (faithful key member)]
  cases key.isFinite <;> rfl

theorem agrees_self {key : AccessKey} (finite : key.isFinite = true) : key.agrees key = true := by
  cases key with
  | counterLimit name maxAccessCount => simp [AccessKey.agrees]
  | timeLimit name interval =>
      cases interval with
      | finite negative place => simp [AccessKey.agrees, Binary.sameNumber]
      | nan => cases finite
      | infinity negative => cases finite

/-- The set with the keys that can be written. -/
def finitePart (set : AccessKeySet) : AccessKeySet :=
  { set with keys := set.keys.filter AccessKey.isFinite }

theorem finitePart_eq_self_iff : set.finitePart = set ↔ ∀ key ∈ set.keys, key.isFinite = true := by
  rw [← List.filter_eq_self]
  constructor
  · exact fun same => congrArg AccessKeySet.keys same
  · intro same
    rw [finitePart, same]

theorem finitePart_agrees_iff :
    set.finitePart.agrees set = true ↔ ∀ key ∈ set.keys, key.isFinite = true := by
  constructor
  · intro agree
    rw [agrees, Bool.and_eq_true, Bool.and_eq_true] at agree
    exact List.length_filter_eq_length_iff.mp (of_decide_eq_true agree.1.2)
  · intro finite
    rw [finitePart_eq_self_iff.mpr finite]
    simp only [agrees, decide_true, Bool.true_and, List.all_eq_true]
    intro pair paired
    rw [List.zip_eq_zipWith, List.zipWith_self, List.mem_map] at paired
    rcases paired with ⟨key, member, rfl⟩
    exact agrees_self (finite key member)

/-- What has been loaded of a set that was saved. -/
structure Reloaded (set : AccessKeySet) (loaded : LoadedKeys) : Prop where
  set_eq : loaded.set = set.finitePart
  skipped_eq : loaded.skipped = (set.keys.zipIdx.filter fun entry => !entry.1.isFinite).map
    fun entry => ⟨entry.2, unwrittenInterval⟩
  same_iff : loaded.set = set ↔ ∀ key ∈ set.keys, key.isFinite = true
  agrees_iff : loaded.set.agrees set = true ↔ ∀ key ∈ set.keys, key.isFinite = true

/-- A set is loaded from its text with every key whose limit is finite, and with no other.  The number
of its keys is written as a word of 64 bits, which no set in memory exceeds. -/
theorem load_save_finite (small : set.keys.length < 2 ^ 64)
    (faithful : ∀ key ∈ set.keys, ∀ interval ∈ key.interval?, interval.isFinite = true →
      IntervalReadsBack interval) :
    ∃ loaded, load set.save = .ok loaded ∧ set.Reloaded loaded := by
  have readable : (Value.list (set.keys.map keyToValue)).isReadable 1 = true :=
    isReadable_list (by decide) fun key member => isReadable_keyToValue (faithful key member)
  have loads := congrArg (Except.map KeyDraft.loaded) (read_save_keys small readable)
  have set_eq : (KeyDraft.loaded ⟨set.name, set.keys.length,
      set.keys.map (Value.sorted ∘ keyToValue)⟩).set = set.finitePart :=
    congrArg (AccessKeySet.mk set.name) (reloaded_keys faithful)
  refine ⟨_, loads, set_eq, reloaded_skipped faithful, ?_, ?_⟩
  · rw [set_eq]
    exact finitePart_eq_self_iff
  · rw [set_eq]
    exact finitePart_agrees_iff

/-- Keys with empty and repeated names, two of which have intervals that can not be written. -/
def worseKeys : AccessKeySet where
  name := "Doors"
  keys := [.timeLimit "" .nan, .timeLimit "Front" (.round .single false 1 10),
    .counterLimit "Front" (-3), .timeLimit "Back" (.infinity true), .counterLimit "" 0]

theorem load_save_finite_worse :
    ∃ loaded, load worseKeys.save = .ok loaded ∧
      loaded.set.keys = [.timeLimit "Front" (.round .single false 1 10),
        .counterLimit "Front" (-3), .counterLimit "" 0] ∧
      loaded.skipped = [⟨0, unwrittenInterval⟩, ⟨3, unwrittenInterval⟩] := by
  have faithful : ∀ key ∈ worseKeys.keys, ∀ interval ∈ key.interval?, interval.isFinite = true →
      IntervalReadsBack interval := by
    decide +kernel
  rcases load_save_finite (by decide) faithful with ⟨loaded, loads, reloaded⟩
  refine ⟨loaded, loads, ?_, ?_⟩
  · rw [reloaded.set_eq]
    rfl
  · rw [reloaded.skipped_eq]
    rfl

end AccessKeySet

end BehaviorTree
