import StigmergicMesh.Checkpoint.Storage

/-!
# A save that is cut off

`_save_to_disk` opens `snapshot_latest.json` for writing, which empties it, writes the text, and
then does the same for the archive file. The process may die at any point. A load from disk then
reads what is left of the latest file, and of no other.
-/

namespace StigmergicMesh.Checkpoint

/-- What is in a file of which the first `bytes` bytes of `data` have been written since it was
emptied. -/
def writtenPrefix (data : String) (bytes : ℕ) : Contents :=
  match String.fromUTF8? (data.toByteArray.extract 0 bytes) with
  | some s => .text s
  | none => .undecodable

/-- Where `_save_to_disk` is cut off. -/
inductive Cut where
  /-- Before `snapshot_latest.json` is opened. -/
  | beforeLatest
  /-- While it is written, with this many bytes in it. -/
  | inLatest (bytes : ℕ)
  /-- After it is closed and before the archive file is opened. -/
  | betweenFiles
  /-- While the archive file is written, or after it has all of its bytes. -/
  | inArchive (bytes : ℕ)

/-- How a cut looks to `Disk.save`: a write that is not carried through. -/
def Cut.outcome (data : String) : Cut → DiskOutcome
  | .beforeLatest => .makedirsFails
  | .inLatest bytes => .latestFails (some (writtenPrefix data bytes))
  | .betweenFiles => .archiveFails none
  | .inArchive bytes => .archiveFails (some (writtenPrefix data bytes))

/-- What is on disk after the cut. -/
def Disk.cutOff (epoch : Int) (data : String) (d : Disk) (cut : Cut) : Disk :=
  (d.save epoch data (cut.outcome data)).2

/-- The text of the snapshot is no longer valid once its end is missing. -/
def Codec.RejectsPrefixes {K : Type*} (codec : Codec K) (s : MatrixSnapshot K) : Prop :=
  ∀ front rest, codec.dump s = front ++ rest → rest ≠ "" → codec.parse front = none

/-- The cut does not fall between the emptying of the latest file and its last byte. -/
def Cut.SparesLatest (data : String) : Cut → Prop
  | .inLatest bytes => data.utf8ByteSize ≤ bytes
  | _ => True

/-! ## Prefixes of a text -/

theorem fromUTF8?_eq_some_iff (b : ByteArray) (s : String) :
    String.fromUTF8? b = some s ↔ s.toByteArray = b := by
  unfold String.fromUTF8?
  by_cases hvalid : b.IsValidUTF8
  · rw [dif_pos hvalid, Option.some.injEq, ← String.toByteArray_inj, eq_comm]
    rfl
  · rw [dif_neg hvalid]
    constructor
    · intro h
      cases h
    · intro h
      rw [← h] at hvalid
      exact absurd s.isValidUTF8 hvalid

theorem writtenPrefix_of_le {data : String} {bytes : ℕ} (h : data.utf8ByteSize ≤ bytes) :
    writtenPrefix data bytes = .text data := by
  have hall : data.toByteArray.extract 0 bytes = data.toByteArray := by
    have hmax : max bytes data.toByteArray.size = bytes := max_eq_left h
    rw [← hmax, ByteArray.extract_zero_max_size]
  rw [writtenPrefix, hall, (fromUTF8?_eq_some_iff _ data).mpr rfl]

/-- Text that is written in part is a proper prefix, if it can be decoded. -/
theorem writtenPrefix_of_lt {data : String} {bytes : ℕ} (h : bytes < data.utf8ByteSize) :
    writtenPrefix data bytes = .undecodable ∨
      ∃ front rest, data = front ++ rest ∧ rest ≠ "" ∧ writtenPrefix data bytes = .text front := by
  unfold writtenPrefix
  cases hdecode : String.fromUTF8? (data.toByteArray.extract 0 bytes) with
  | none => exact Or.inl rfl
  | some front =>
    have hfront := (fromUTF8?_eq_some_iff _ front).mp hdecode
    have hpos : (⟨bytes⟩ : String.Pos.Raw).IsValid data := by
      rw [String.Pos.Raw.isValid_iff_isValidUTF8_extract_zero]
      refine ⟨h.le, ?_⟩
      rw [← hfront]
      exact front.isValidUTF8
    obtain ⟨s, rest, hsplit, hend⟩ := String.Pos.Raw.isValid_iff_exists_append.mp hpos
    have hbytes : bytes = s.utf8ByteSize := congrArg String.Pos.Raw.byteIdx hend
    have hs : s = front := by
      rw [← String.toByteArray_inj, hfront, hsplit, String.toByteArray_append,
        ByteArray.extract_append_eq_left hbytes]
    subst hs
    refine Or.inr ⟨s, rest, hsplit, ?_, rfl⟩
    rintro rfl
    rw [hsplit, String.utf8ByteSize_append, String.utf8ByteSize_empty] at h
    omega

/-! ## What a load finds -/

section Loads

variable {K : Type*} {codec : Codec K} {new : MatrixSnapshot K}

/-- After the cut the latest file reads as before, or as the new snapshot, or not at all. -/
theorem snapshot_cutOff (hnew : codec.Inverts new) (hpre : codec.RejectsPrefixes new)
    (epoch : Int) (d : Disk) (cut : Cut) :
    (d.cutOff epoch (codec.dump new) cut).snapshot codec =
      match cut with
      | .beforeLatest => d.snapshot codec
      | .inLatest bytes => if (codec.dump new).utf8ByteSize ≤ bytes then some new else none
      | .betweenFiles => some new
      | .inArchive _ => some new := by
  cases cut with
  | beforeLatest => rfl
  | betweenFiles =>
    simp [Disk.cutOff, Cut.outcome, Disk.save, Disk.writeArchive, Disk.writeLatest,
      Disk.snapshot, Contents.snapshot, hnew.1]
  | inArchive bytes =>
    simp [Disk.cutOff, Cut.outcome, Disk.save, Disk.writeArchive, Disk.writeLatest,
      Disk.snapshot, Contents.snapshot, hnew.1]
  | inLatest bytes =>
    have hlatest : (d.cutOff epoch (codec.dump new) (.inLatest bytes)).snapshot codec =
        (writtenPrefix (codec.dump new) bytes).snapshot codec := by
      simp [Disk.cutOff, Cut.outcome, Disk.save, Disk.writeLatest, Disk.snapshot]
    by_cases hall : (codec.dump new).utf8ByteSize ≤ bytes
    · simp [hlatest, writtenPrefix_of_le hall, hall, Contents.snapshot, hnew.1]
    · rcases writtenPrefix_of_lt (not_le.mp hall) with htorn | ⟨front, rest, hdata, hrest, htext⟩
      · simp [hlatest, htorn, hall, Contents.snapshot]
      · simp [hlatest, htext, hall, Contents.snapshot, hpre front rest hdata hrest]

/-- A load that finds nothing in Redis gives the old snapshot or the new one. -/
def CheckpointManager.LoadsOldOrNew (m : CheckpointManager) (codec : Codec K) (reachable : Bool)
    (st : Stores) (old new : MatrixSnapshot K) : Prop :=
  m.loadLatestCheckpoint codec reachable st = some old ∨
    m.loadLatestCheckpoint codec reachable st = some new

variable [Field K] [LinearOrder K] [FloorRing K]

/-- A cut costs the checkpoint exactly if it falls between the emptying of the latest file and its
last byte: the old text is gone then and the new one is not valid yet. -/
theorem loadsOldOrNew_iff (m : CheckpointManager) (codec : Codec K) (new : MatrixSnapshot K)
    (hnew : codec.Inverts new) (hpre : codec.RejectsPrefixes new) (reachable : Bool)
    (st : Stores) (hredis : m.redis = true → reachable = true → st.redis.snapshot codec = none)
    (old : MatrixSnapshot K) (hold : st.disk.snapshot codec = some old) (cut : Cut) :
    m.LoadsOldOrNew codec reachable
        { st with disk := st.disk.cutOff (epoch new.timestamp) (codec.dump new) cut } old new ↔
      cut.SparesLatest (codec.dump new) := by
  have hdisk := snapshot_cutOff hnew hpre (epoch new.timestamp) st.disk cut
  have hload : m.loadLatestCheckpoint codec reachable
      { st with disk := st.disk.cutOff (epoch new.timestamp) (codec.dump new) cut } =
        (st.disk.cutOff (epoch new.timestamp) (codec.dump new) cut).snapshot codec := by
    unfold CheckpointManager.loadLatestCheckpoint
    split
    · rename_i hboth
      rw [Bool.and_eq_true] at hboth
      rw [hredis hboth.1 hboth.2, Option.none_or]
    · rfl
  rw [CheckpointManager.LoadsOldOrNew, hload, hdisk]
  cases cut with
  | beforeLatest => simp [Cut.SparesLatest, hold]
  | betweenFiles => simp [Cut.SparesLatest]
  | inArchive bytes => simp [Cut.SparesLatest]
  | inLatest bytes =>
    by_cases hall : (codec.dump new).utf8ByteSize ≤ bytes <;> simp [Cut.SparesLatest, hall]

end Loads

/-! ## One directory -/

theorem sampleCodec_rejectsPrefixes : sampleCodec.RejectsPrefixes (sampleSnapshot 160) := by
  intro front rest hdata hrest
  have hdump : sampleCodec.dump (sampleSnapshot 160) = lateText := by
    norm_num [sampleCodec, sampleSnapshot]
  have hsize : earlyText.utf8ByteSize = lateText.utf8ByteSize := by
    simp only [earlyText, lateText, snapshotText, String.utf8ByteSize_append]
    rfl
  have hpos : 0 < rest.utf8ByteSize := by
    rw [Nat.pos_iff_ne_zero, ne_eq, String.utf8ByteSize_eq_zero_iff]
    exact hrest
  have hshorter : front.utf8ByteSize < lateText.utf8ByteSize := by
    rw [← hdump, hdata, String.utf8ByteSize_append]
    omega
  have hearly : front ≠ earlyText := by
    rintro rfl
    omega
  have hlate : front ≠ lateText := by
    rintro rfl
    omega
  simp [sampleCodec, hearly, hlate]

/-- A directory that holds the snapshot of second 100. -/
def savedStores : Stores :=
  { emptyStores with disk := (emptyStores.disk.save 100 earlyText .written).2 }

theorem savedStores_snapshot :
    savedStores.disk.snapshot sampleCodec = some (sampleSnapshot 100) := by
  simp [savedStores, Disk.save, Disk.writeArchive, Disk.writeLatest, Disk.snapshot,
    Contents.snapshot, sampleCodec]

/-- A cut between the two files leaves the new snapshot. -/
theorem loadsOldOrNew_between_files :
    sampleManager.LoadsOldOrNew sampleCodec true
      { savedStores with
        disk := savedStores.disk.cutOff (epoch (160 : ℚ)) (sampleCodec.dump (sampleSnapshot 160))
          .betweenFiles }
      (sampleSnapshot 100) (sampleSnapshot 160) :=
  (loadsOldOrNew_iff sampleManager sampleCodec (sampleSnapshot 160) sampleCodec_inverts.2
    sampleCodec_rejectsPrefixes true savedStores (fun _ _ => rfl) (sampleSnapshot 100)
    savedStores_snapshot .betweenFiles).mpr trivial

/-- A cut just after the latest file was opened leaves nothing to load. -/
theorem cut_after_truncation_loses :
    ¬sampleManager.LoadsOldOrNew sampleCodec true
      { savedStores with
        disk := savedStores.disk.cutOff (epoch (160 : ℚ)) (sampleCodec.dump (sampleSnapshot 160))
          (.inLatest 0) }
      (sampleSnapshot 100) (sampleSnapshot 160) := by
  have hdisk := snapshot_cutOff sampleCodec_inverts.2 sampleCodec_rejectsPrefixes
    (epoch (160 : ℚ)) savedStores.disk (.inLatest 0)
  have hlong : ¬(sampleCodec.dump (sampleSnapshot 160)).utf8ByteSize ≤ 0 := by
    rw [Nat.le_zero, String.utf8ByteSize_eq_zero_iff]
    exact sampleCodec_inverts.2.2
  simp only [hlong, if_false] at hdisk
  have hredis : savedStores.redis.snapshot sampleCodec = none := rfl
  simp [CheckpointManager.LoadsOldOrNew, CheckpointManager.loadLatestCheckpoint, hdisk, hredis]

end StigmergicMesh.Checkpoint
