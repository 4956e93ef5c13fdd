import Plur1bus.Ext.Safety

/-!
An audited archive has one reading: it is its entries, their directory and the end
record one behind the other, and whether it is accepted does not depend on the order
of the directory.
-/

namespace Plur1bus.Ext

open Program List

variable {fold : List Char → List Char} {isNormalized : List Char → Bool} {limits : Limits}

/-! ### The end record -/

/-- What the end record says, and where it says the directory is. -/
structure EndRecord (limits : Limits) (file eocd : Bytes) (total cdSize cdOffset : ℕ) : Prop where
  split : file = file.take (file.length - EOCD_LEN) ++ eocd
  length : eocd.length = EOCD_LEN
  signature : word32 eocd 0 = SIG_EOCD
  entries : word16 eocd 10 = total
  size : word32 eocd 12 = cdSize
  offset : word32 eocd 16 = cdOffset
  count : total ≤ limits.maxEntries
  whole : cdOffset + cdSize + EOCD_LEN = file.length

variable {file : Bytes}

theorem readEnd_ok {total cdSize cdOffset : ℕ} (h : readEnd limits file = .ok (total, cdSize, cdOffset)) :
    EndRecord limits file (file.drop (file.length - EOCD_LEN)) total cdSize cdOffset := by
  simp only [readEnd, bind_ok, ensure_ok, sub_ok, readAt_ok, u32At_ok, u16At_ok, exists_const, exists_and_left,
    exists_eq_left', and_assoc, pure, Except.pure, Except.ok.injEq, Prod.mk.injEq] at h
  obtain ⟨hmin, -, -, -, hsig, -, -, -, -, -, -, -, -, -, -, -, -, -, -, -, hcount, hwhole, htotal, hsize, hoffset⟩ := h
  have hlen : (file.drop (file.length - EOCD_LEN)).length = EOCD_LEN := by
    rw [length_drop]
    omega
  have htake : (file.drop (file.length - EOCD_LEN)).take EOCD_LEN = file.drop (file.length - EOCD_LEN) :=
    take_of_length_le (by omega)
  rw [htake] at hsig hcount hwhole htotal hsize hoffset
  rw [htotal] at hcount
  rw [hoffset, hsize] at hwhole
  exact ⟨(take_append_drop _ _).symm, hlen, hsig, htotal, hsize, hoffset, hcount, by omega⟩

theorem readEnd_congr {file' : Bytes} {v : ℕ × ℕ × ℕ} (hlen : file.length = file'.length)
    (htail : file.drop (file.length - EOCD_LEN) = file'.drop (file.length - EOCD_LEN))
    (h : readEnd limits file = .ok v) : readEnd limits file' = .ok v := by
  simp only [readEnd, bind_ok, ensure_ok, sub_ok, readAt_ok, exists_const, exists_and_left, exists_eq_left',
    and_assoc] at h ⊢
  rw [← hlen, ← htail]
  exact h

theorem safe_readEnd (file : Bytes) : Safe (readEnd limits file) := by
  have h22 : EOCD_LEN = 22 := rfl
  simp only [readEnd, safe_bind, safe_sub, safe_readAt, safe_u32At, safe_u16At, unsupported, tooLarge, safe_ensure,
    safe_pure, true_and, ensure_ok, sub_ok, readAt_ok, implies_true, and_true]
  rintro - hmin
  refine ⟨hmin, ?_⟩
  rintro pos ⟨-, rfl⟩
  refine ⟨by omega, ?_⟩
  rintro eocd ⟨-, rfl⟩
  have hlen : ((file.drop (file.length - EOCD_LEN)).take EOCD_LEN).length = 22 := by
    rw [length_take, length_drop]
    omega
  exact ⟨by omega, fun _ _ _ _ => ⟨by omega, fun _ _ => ⟨by omega, fun _ _ => ⟨by omega, fun _ _ => ⟨by omega,
    fun _ _ => ⟨by omega, fun _ _ => ⟨by omega, fun _ _ => by omega⟩⟩⟩⟩⟩⟩⟩

theorem safe_auditZip (sha256 : Bytes → String) (file : Bytes) :
    Safe (auditZip sha256 fold isNormalized limits file) := by
  simp only [auditZip, safe_bind, tooLarge, unsupported, safe_ensure, safe_pure, true_and, implies_true, and_true]
  rintro - -
  refine ⟨safe_readEnd file, ?_⟩
  rintro ⟨total, cdSize, cdOffset⟩ hend
  have hwhole := (readEnd_ok hend).whole
  dsimp only
  refine ⟨safe_readAt.mpr (.inr (by omega)), fun cd _ => ⟨safe_readCentrals Reads.init, ?_⟩⟩
  intro read _ _ _
  exact safe_checkLocals (by omega) _ _

/-! ### The archive -/

/-- An entry: what the directory says of it, its record there, and its bytes before. -/
structure Piece where
  central : Central
  record : Bytes
  part : Bytes

def Piece.entry (p : Piece) : Entry := p.central.entry (p.central.offset + localData p.part)

/-- The archive is its entries, in the order of their offsets, the directory, and the end record. -/
structure Layout (file : Bytes) (pieces order : List Piece) (eocd : Bytes) : Prop where
  perm : order.Perm pieces
  bytes : file = (order.map Piece.part).flatten ++ ((pieces.map Piece.record).flatten ++ eocd)
  starts : ∀ (k : ℕ) (p : Piece), order[k]? = some p →
    p.central.offset = ((order.take k).map Piece.part).flatten.length
  parts : ∀ p ∈ pieces, Part p.central p.part
  records : ∀ p ∈ pieces, p.record.length = recordLength p.record ∧ word32 p.record 0 = SIG_CENTRAL ∧
    recordName p.record = Utf8.bytes p.central.name ∧ p.central = centralOf p.record p.central.name p.central.exec
  length : eocd.length = EOCD_LEN
  signature : word32 eocd 0 = SIG_EOCD
  total : word16 eocd 10 = pieces.length
  size : word32 eocd 12 = ((pieces.map Piece.record).flatten).length
  offset : word32 eocd 16 = ((order.map Piece.part).flatten).length

/-- The limits of an audit. -/
structure Within (limits : Limits) (file : Bytes) (entries : List Entry) : Prop where
  package : file.length ≤ limits.packageBytes
  count : entries.length ≤ limits.maxEntries
  declared : (entries.map Entry.uncompressed).sum ≤ limits.packageBytes
  each : ∀ e ∈ entries, e.uncompressed ≤ limits.entryBytes ∧ e.uncompressed ≤ e.compressed * limits.maxRatio

variable {sha256 : Bytes → String} {a : Audited}

/-- The parts of an audit that accepts. -/
theorem auditZip_ok : auditZip sha256 fold isNormalized limits file = .ok a ↔
      file.length ≤ limits.packageBytes ∧ ∃ total cdSize cdOffset read dataOffsets,
        readEnd limits file = .ok (total, cdSize, cdOffset) ∧
        readCentrals fold isNormalized limits ((file.drop cdOffset).take cdSize) total {} = .ok read ∧
        read.p = ((file.drop cdOffset).take cdSize).length ∧
        checkLocals file cdOffset (read.centrals.zipIdx.mergeSort fun a b => a.1.offset ≤ b.1.offset)
          (List.replicate read.centrals.length 0, 0) = .ok (dataOffsets, cdOffset) ∧
        a = ⟨file.length, sha256 file, List.zipWith Central.entry read.centrals dataOffsets⟩ := by
  simp only [auditZip, bind_ok, ensure_ok, readAt_ok, exists_const, pure, Except.pure, Except.ok.injEq]
  constructor
  · simp_all
  · rintro ⟨hsize, total, cdSize, cdOffset, read, dataOffsets, hend, hread, hp, hlocals, rfl⟩
    have hwhole := (readEnd_ok hend).whole
    exact ⟨hsize, (total, cdSize, cdOffset), hend, _, ⟨.inr (by dsimp only; omega), rfl⟩, read, hread, hp,
      (dataOffsets, cdOffset), hlocals, rfl, rfl⟩

theorem nodup_zipIdx {l : List Central} : (l.zipIdx.map Prod.snd).Nodup := by
  rw [zipIdx_map_snd]
  exact nodup_range'

theorem checkSizes_ok {raw : Bytes} {c u : ℕ} {v : Unit} (h : checkSizes limits raw c u = .ok v) :
    u ≤ limits.entryBytes ∧ u ≤ c * limits.maxRatio := by
  simp only [checkSizes, bind_ok, ensure_ok, exists_const] at h
  exact ⟨h.1, le_trans h.2 (Nat.min_le_left _ _)⟩

/-- What was read of an archive, before it is put together. -/
structure Audit (fold : List Char → List Char) (isNormalized : List Char → Bool) (limits : Limits) (file : Bytes)
    (cs : List Central) (rs parts : List Bytes) (order : List (Central × ℕ)) (dataOffsets : List ℕ) (eocd : Bytes) :
    Prop where
  bytes : file = parts.flatten ++ (rs.flatten ++ eocd)
  package : file.length ≤ limits.packageBytes
  records : List.Forall₂ (IsRecord isNormalized limits) rs cs
  declared : (cs.map Central.uncompressed).sum ≤ limits.packageBytes
  apart : Apart fold (cs.map Central.name)
  perm : order.Perm cs.zipIdx
  laid : Laid (file.take parts.flatten.length) order 0 parts.flatten.length (List.replicate cs.length 0) dataOffsets parts
  finish : EndRecord limits file eocd rs.length rs.flatten.length parts.flatten.length
  readEnd : readEnd limits file = .ok (rs.length, rs.flatten.length, parts.flatten.length)
  checkLocals : checkLocals file parts.flatten.length order (List.replicate cs.length 0, 0) =
    .ok (dataOffsets, parts.flatten.length)

theorem audit_of_ok (h : auditZip sha256 fold isNormalized limits file = .ok a) :
    ∃ cs rs parts order dataOffsets eocd,
      Audit fold isNormalized limits file cs rs parts order dataOffsets eocd ∧
        order = (cs.zipIdx.mergeSort fun a b => a.1.offset ≤ b.1.offset) ∧
        a.entries = List.zipWith Central.entry cs dataOffsets := by
  obtain ⟨hsize, total, cdSize, cdOffset, read, dataOffsets, hend, hread, hp, hlocals, rfl⟩ := auditZip_ok.mp h
  have hfinish := readEnd_ok hend
  have hwhole := hfinish.whole
  obtain ⟨rs, hcount, hreads⟩ := Reads.init.run hread
  rw [nil_append] at hreads
  have hcdlen : ((file.drop cdOffset).take cdSize).length = cdSize := by
    rw [length_take, length_drop]
    omega
  -- The records fill the directory.
  have hcd : (file.drop cdOffset).take cdSize = rs.flatten := by
    obtain ⟨rest, hrest⟩ := hreads.consumed
    have hlen := congrArg List.length hrest
    rw [length_append, ← hp, hreads.p] at hlen
    rw [hrest, length_eq_zero_iff.mp (by omega : rest.length = 0), append_nil]
  have hcdSize : cdSize = rs.flatten.length := by rw [← hcd, hcdlen]
  obtain ⟨parts, hlaid⟩ := checkLocals_laid (by omega) (Nat.zero_le _) hlocals
  have hcdOffset : cdOffset = parts.flatten.length := by rw [hlaid.stop, Nat.zero_add]
  have hfront : file.take cdOffset = parts.flatten := by
    have := hlaid.bytes
    rw [drop_zero, drop_take, Nat.sub_self, take_zero, append_nil] at this
    exact this
  have hfile : file = parts.flatten ++ (rs.flatten ++ file.drop (file.length - EOCD_LEN)) := by
    rw [← hfront, ← hcd]
    have hdrop : file.drop (file.length - EOCD_LEN) = (file.drop cdOffset).drop cdSize := by
      rw [drop_drop]
      congr 1
      omega
    rw [hdrop, take_append_drop, take_append_drop]
  subst hcdOffset hcdSize
  rw [← hcount] at hfinish hend
  refine ⟨read.centrals, rs, parts, _, dataOffsets, _, ⟨hfile, hsize, hreads.records, ?_, hreads.apart, ?_, hlaid,
    hfinish, hend, hlocals⟩, rfl, rfl⟩
  · rw [← hreads.declared]
    exact hreads.within
  · exact mergeSort_perm _ _

section

variable {file : Bytes} {cs : List Central} {rs parts : List Bytes} {order : List (Central × ℕ)}
  {dataOffsets : List ℕ} {eocd : Bytes}

/-- The part of the entry at an index of the directory. -/
def partAt (order : List (Central × ℕ)) (parts : List Bytes) (i : ℕ) : Bytes :=
  parts.getD ((order.map Prod.snd).idxOf i) []

def pieceAt (order : List (Central × ℕ)) (rs parts : List Bytes) (ci : Central × ℕ) : Piece :=
  ⟨ci.1, rs.getD ci.2 [], partAt order parts ci.2⟩

theorem Audit.nodup (h : Audit fold isNormalized limits file cs rs parts order dataOffsets eocd) :
    (order.map Prod.snd).Nodup :=
  (h.perm.map Prod.snd).nodup_iff.mpr nodup_zipIdx

theorem Audit.partAt (h : Audit fold isNormalized limits file cs rs parts order dataOffsets eocd) {k : ℕ}
    (hk : k < order.length) (hkp : k < parts.length) : Ext.partAt order parts (order[k]).2 = parts[k] := by
  have hidx : (order.map Prod.snd).idxOf (order[k]).2 = k := by
    have := List.Nodup.idxOf_getElem h.nodup k (by rw [length_map]; exact hk)
    rw [getElem_map] at this
    exact this
  unfold Ext.partAt
  rw [hidx, getD_eq_getElem?_getD, List.getElem?_eq_getElem hkp, Option.getD_some]

/-- Where an entry of the directory stands in the order of the offsets. -/
theorem Audit.place (h : Audit fold isNormalized limits file cs rs parts order dataOffsets eocd) {ci : Central × ℕ}
    (hci : ci ∈ cs.zipIdx) : ∃ k : ℕ, order[k]? = some ci ∧ parts[k]? = some (Ext.partAt order parts ci.2) := by
  obtain ⟨k, hk, rfl⟩ := mem_iff_getElem.mp (h.perm.mem_iff.mpr hci)
  have hkp : k < parts.length := by rw [← h.laid.agree.length_eq]; exact hk
  exact ⟨k, List.getElem?_eq_getElem hk, by rw [h.partAt hk hkp]; exact List.getElem?_eq_getElem hkp⟩

theorem Audit.map_part (h : Audit fold isNormalized limits file cs rs parts order dataOffsets eocd) :
    (order.map (pieceAt order rs parts)).map Piece.part = parts := by
  have hlen := h.laid.agree.length_eq
  refine ext_getElem (by simp [hlen]) fun k hk hkp => ?_
  rw [getElem_map, getElem_map]
  exact h.partAt (by simpa using hk) hkp

theorem Audit.map_record (h : Audit fold isNormalized limits file cs rs parts order dataOffsets eocd) :
    (cs.zipIdx.map (pieceAt order rs parts)).map Piece.record = rs := by
  have hlen := h.records.length_eq
  refine ext_getElem (by simp [hlen]) fun k hk hkp => ?_
  rw [getElem_map, getElem_map, getElem_zipIdx]
  simp only [pieceAt, Nat.zero_add]
  rw [getD_eq_getElem?_getD, List.getElem?_eq_getElem hkp, Option.getD_some]

theorem Audit.entries (h : Audit fold isNormalized limits file cs rs parts order dataOffsets eocd) :
    List.zipWith Central.entry cs dataOffsets = (cs.zipIdx.map (pieceAt order rs parts)).map Piece.entry := by
  have hoffs : dataOffsets.length = cs.length := by rw [h.laid.length, length_replicate]
  refine ext_getElem (by simp [hoffs]) fun i hi hip => ?_
  have hic : i < cs.length := by simpa using hip
  have hmem : (cs[i], i) ∈ cs.zipIdx := mk_mem_zipIdx_iff_getElem?.mpr (List.getElem?_eq_getElem hic)
  obtain ⟨k, hk, hkp⟩ := h.place hmem
  have hdata := h.laid.data h.nodup k _ _ hk hkp (by rw [length_replicate]; exact hic)
  rw [getElem_zipWith, getElem_map, getElem_map, getElem_zipIdx]
  simp only [pieceAt, Piece.entry, Nat.zero_add]
  dsimp only at hdata
  rw [List.getElem?_eq_getElem (by omega), Option.some.injEq] at hdata
  rw [hdata]

theorem Audit.layout (h : Audit fold isNormalized limits file cs rs parts order dataOffsets eocd) :
    Layout file (cs.zipIdx.map (pieceAt order rs parts)) (order.map (pieceAt order rs parts)) eocd where
  perm := h.perm.map _
  bytes := by
    rw [h.map_part, h.map_record]
    exact h.bytes
  starts := by
    intro k p hp
    rw [List.getElem?_map, Option.map_eq_some_iff] at hp
    obtain ⟨ci, hci, rfl⟩ := hp
    have := h.laid.starts k ci hci
    rw [Nat.zero_add] at this
    rw [map_take, h.map_part]
    exact this
  parts := by
    intro p hp
    obtain ⟨ci, hci, rfl⟩ := mem_map.mp hp
    obtain ⟨k, hk, hkp⟩ := h.place hci
    obtain ⟨hlt, hget⟩ := List.getElem?_eq_some_iff.mp hk
    obtain ⟨hltp, hgetp⟩ := List.getElem?_eq_some_iff.mp hkp
    have := h.laid.agree.get hlt hltp
    simp only [get_eq_getElem, hget, hgetp] at this
    exact this
  records := by
    intro p hp
    obtain ⟨ci, hci, rfl⟩ := mem_map.mp hp
    obtain ⟨c, i⟩ := ci
    obtain ⟨hi, hc⟩ := List.getElem?_eq_some_iff.mp (mk_mem_zipIdx_iff_getElem?.mp hci)
    have hir : i < rs.length := by rw [h.records.length_eq]; exact hi
    have hrec := h.records.get hir hi
    simp only [get_eq_getElem, hc] at hrec
    have hgetD : rs.getD i [] = rs[i] := by
      rw [getD_eq_getElem?_getD, List.getElem?_eq_getElem hir, Option.getD_some]
    simp only [pieceAt, hgetD]
    exact ⟨hrec.1, hrec.2.signature, (checkName_ok hrec.2.name).1.symm, hrec.2.central⟩
  length := h.finish.length
  signature := h.finish.signature
  total := by
    rw [length_map, length_zipIdx, ← h.records.length_eq]
    exact h.finish.entries
  size := by
    rw [h.map_record]
    exact h.finish.size
  offset := by
    rw [h.map_part]
    exact h.finish.offset

end

/-! ### The order of the directory -/

theorem offsets_sorted (cs : List Central) :
    ((cs.zipIdx.mergeSort fun a b => a.1.offset ≤ b.1.offset).map Prod.fst).Pairwise fun c d => c.offset ≤ d.offset := by
  rw [pairwise_map]
  have h : (cs.zipIdx.mergeSort fun a b => a.1.offset ≤ b.1.offset).Pairwise
      fun a b => decide (a.1.offset ≤ b.1.offset) = true := pairwise_mergeSort
    (fun a b c hab hbc => by simp only [decide_eq_true_eq] at *; omega)
    (fun a b => by simp only [Bool.or_eq_true, decide_eq_true_eq]; omega) cs.zipIdx
  exact h.imp fun hab => of_decide_eq_true hab

theorem map_fst_sorted (cs : List Central) :
    ((cs.zipIdx.mergeSort fun a b => a.1.offset ≤ b.1.offset).map Prod.fst).Perm cs := by
  have h := (mergeSort_perm cs.zipIdx fun a b => decide (a.1.offset ≤ b.1.offset)).map Prod.fst
  rw [zipIdx_map_fst] at h
  exact h

/-- Where the offsets differ, the order of the directory does not matter for the order of the offsets. -/
theorem sorted_eq {cs cs' : List Central} (hperm : cs'.Perm cs)
    (h : ((cs.zipIdx.mergeSort fun a b => a.1.offset ≤ b.1.offset).map Prod.fst).Pairwise
      fun c d => c.offset < d.offset) :
    (cs.zipIdx.mergeSort fun a b => a.1.offset ≤ b.1.offset).map Prod.fst =
      (cs'.zipIdx.mergeSort fun a b => a.1.offset ≤ b.1.offset).map Prod.fst := by
  have hp := (map_fst_sorted cs).trans (hperm.symm.trans (map_fst_sorted cs').symm)
  refine hp.eq_of_pairwise ?_ (offsets_sorted cs) (offsets_sorted cs')
  intro c d hc hd hcd hdc
  -- Two entries of one offset are one.
  obtain ⟨i, hi, rfl⟩ := mem_iff_getElem.mp hc
  obtain ⟨j, hj, rfl⟩ := mem_iff_getElem.mp (hp.mem_iff.mpr hd)
  have hinc := pairwise_iff_getElem.mp h
  rcases Nat.lt_trichotomy i j with hlt | heq | hgt
  · have := hinc i j hi hj hlt
    omega
  · subst heq
    rfl
  · have := hinc j i hj hi hgt
    omega

/-- An archive with its directory in another order. -/
theorem accepted_of_perm {front tail : Bytes} {records records' : List Bytes}
    (hlength : tail.length = EOCD_LEN) (hoffset : word32 tail 16 = front.length)
    (hrecords : ∀ r ∈ records, r.length = recordLength r) (hperm : records.Perm records')
    (h : ∃ a, auditZip sha256 fold isNormalized limits (front ++ (records.flatten ++ tail)) = .ok a) :
    ∃ a, auditZip sha256 fold isNormalized limits (front ++ (records'.flatten ++ tail)) = .ok a := by
  obtain ⟨a, h⟩ := h
  have hflat : records.flatten.length = records'.flatten.length := by
    rw [length_flatten, length_flatten]
    exact (hperm.map List.length).sum_nat
  obtain ⟨cs, rs, parts, order, dataOffsets, eocd, haudit, rfl, -⟩ := audit_of_ok h
  have hbytes := haudit.bytes
  have hfinish := haudit.finish
  -- The archive was read as it was put together.
  have htails : front ++ records.flatten = parts.flatten ++ rs.flatten ∧ tail = eocd := by
    rw [← append_assoc, ← append_assoc] at hbytes
    exact append_inj' hbytes (by rw [hlength, hfinish.length])
  obtain ⟨hfronts, rfl⟩ := htails
  obtain ⟨rfl, hdirs⟩ := append_inj hfronts (by rw [← hoffset, hfinish.offset])
  have hrs : records = rs := by
    refine records_unique hrecords ?_ hdirs
    intro r hr
    obtain ⟨i, hi, rfl⟩ := mem_iff_getElem.mp hr
    have hic : i < cs.length := by rw [← haudit.records.length_eq]; exact hi
    exact (haudit.records.get hi hic).1
  subst hrs
  obtain ⟨cs', hrecords', hcs⟩ := List.perm_comp_forall₂ hperm.symm haudit.records
  generalize hfile : parts.flatten ++ (records.flatten ++ tail) = file at haudit
  generalize hfile' : parts.flatten ++ (records'.flatten ++ tail) = file'
  have hsame : file.length = file'.length := by
    rw [← hfile, ← hfile']
    simp [hflat]
  have hcdlen : (file'.drop parts.flatten.length).take records.flatten.length = records'.flatten := by
    rw [← hfile', drop_left, hflat, take_left]
  have hend : readEnd limits file' = .ok (records.length, records.flatten.length, parts.flatten.length) := by
    refine readEnd_congr hsame ?_ haudit.readEnd
    have hpos : file.length - EOCD_LEN = (parts.flatten ++ records.flatten).length := by
      rw [← hfile]
      simp only [length_append]
      omega
    have hpos' : file.length - EOCD_LEN = (parts.flatten ++ records'.flatten).length := by
      rw [hpos, length_append, length_append, hflat]
    conv_lhs => rw [hpos, ← hfile, ← append_assoc, drop_left]
    conv_rhs => rw [hpos', ← hfile', ← append_assoc, drop_left]
  have hinit : Reads fold isNormalized limits records'.flatten [] {} := Reads.init
  have hwholeDir : records'.flatten = [].flatten ++ (records'.flatten ++ []) := by simp
  obtain ⟨read, hread, hcentrals, hreads⟩ := hinit.total hwholeDir hrecords'
    (haudit.apart.perm (hcs.symm.map Central.name))
    (by rw [Nat.zero_add, (hcs.map Central.uncompressed).sum_nat]; exact haudit.declared)
  rw [nil_append] at hcentrals hreads
  have hlimit : parts.flatten.length ≤ file.length := by
    rw [← hfile, length_append]
    omega
  have hlimit' : parts.flatten.length ≤ file'.length := by omega
  have hfronts' : file.take parts.flatten.length = file'.take parts.flatten.length := by
    rw [← hfile, ← hfile', take_left, take_left]
  obtain ⟨o', hlocals⟩ := checkLocals_congr (List.replicate read.centrals.length 0) hlimit hlimit' hfronts'
    (sorted_eq hcs haudit.laid.increasing) haudit.checkLocals
  refine ⟨_, auditZip_ok.mpr ⟨by rw [← hsame]; exact haudit.package, _, _, _, read, o', hend, ?_, ?_, ?_, rfl⟩⟩
  · rw [hcdlen, hperm.length_eq]
    exact hread
  · rw [hcdlen, hreads.p]
  · rw [hcentrals] at hlocals ⊢
    exact hlocals

/-! ### What is promised -/

/-- The names of an archive cannot be taken for one another. -/
structure Distinct (fold : List Char → List Char) (names : List (List Char)) : Prop where
  /-- No two names fold equal. -/
  files : names.Pairwise fun a b => fold a ≠ fold b
  /-- No name folds equal to a directory. -/
  fileDir : ∀ a ∈ names, ∀ b ∈ names, ∀ d rest, b = d ++ '/' :: rest → fold a ≠ fold d
  /-- Directories that fold equal are spelled the same. -/
  dirs : ∀ a ∈ names, ∀ b ∈ names, ∀ d rest d' rest', a = d ++ '/' :: rest → b = d' ++ '/' :: rest' →
    fold d = fold d' → d = d'

theorem Apart.distinct {names : List (List Char)} (h : Apart fold names) : Distinct fold names where
  files := pairwise_map.mp h.keys
  fileDir := fun a ha b hb d rest hd => h.files a ha b hb d (mem_dirPrefixes.mpr ⟨rest, hd⟩)
  dirs := fun a ha b hb d rest d' rest' hd hd' =>
    h.dirs a ha b hb d (mem_dirPrefixes.mpr ⟨rest, hd⟩) d' (mem_dirPrefixes.mpr ⟨rest', hd'⟩)

section

variable {file : Bytes} {cs : List Central} {rs parts : List Bytes} {order : List (Central × ℕ)}
  {dataOffsets : List ℕ} {eocd : Bytes}

/-- What an entry has from the directory. -/
theorem Audit.map_entries (h : Audit fold isNormalized limits file cs rs parts order dataOffsets eocd) {β : Type}
    {f : Entry → β} {g : Central → β} (hfg : ∀ c d, f (c.entry d) = g c) :
    (List.zipWith Central.entry cs dataOffsets).map f = cs.map g := by
  have hlen : dataOffsets.length = cs.length := by rw [h.laid.length, length_replicate]
  refine ext_getElem (by simp [hlen]) fun i hi hic => ?_
  rw [getElem_map, getElem_map, getElem_zipWith, hfg]

theorem Audit.record_of_mem (h : Audit fold isNormalized limits file cs rs parts order dataOffsets eocd) {e : Entry}
    (he : e ∈ List.zipWith Central.entry cs dataOffsets) :
    ∃ r c d, IsRecord isNormalized limits r c ∧ e = c.entry d := by
  obtain ⟨i, hi, rfl⟩ := mem_iff_getElem.mp he
  rw [getElem_zipWith]
  rw [length_zipWith] at hi
  have hic : i < cs.length := by omega
  have hir : i < rs.length := by rw [h.records.length_eq]; exact hic
  exact ⟨_, _, _, h.records.get hir hic, rfl⟩

theorem Audit.within (h : Audit fold isNormalized limits file cs rs parts order dataOffsets eocd) :
    Within limits file (List.zipWith Central.entry cs dataOffsets) where
  package := h.package
  count := by
    have hcount := h.finish.count
    rw [h.records.length_eq] at hcount
    rw [length_zipWith]
    omega
  declared := by
    rw [h.map_entries (g := Central.uncompressed) fun _ _ => rfl]
    exact h.declared
  each := by
    intro e he
    obtain ⟨r, c, d, hr, rfl⟩ := h.record_of_mem he
    have hsizes := checkSizes_ok hr.2.sizes
    have hc := hr.2.central
    have hcompressed : c.compressed = word32 r 20 := by rw [hc]; rfl
    have huncompressed : c.uncompressed = word32 r 24 := by rw [hc]; rfl
    change c.uncompressed ≤ limits.entryBytes ∧ c.uncompressed ≤ c.compressed * limits.maxRatio
    rw [hcompressed, huncompressed]
    exact hsizes

end

/-- The audit stays inside of the archive; an archive that it accepts is its parts one behind the other, keeps the
limits and has names that cannot be taken for one another; and the order of the directory does not matter. -/
theorem audited_has_one_reading (sha256 : Bytes → String) (fold : List Char → List Char)
    (isNormalized : List Char → Bool) (limits : Limits) :
    (∀ file, Safe (auditZip sha256 fold isNormalized limits file)) ∧
    (∀ file a, auditZip sha256 fold isNormalized limits file = .ok a →
      (∃ pieces order eocd, Layout file pieces order eocd ∧ a.entries = pieces.map Piece.entry) ∧
        Within limits file a.entries ∧ Distinct fold (a.entries.map Entry.name) ∧
        ∀ e ∈ a.entries, SafeName e.name) ∧
    ∀ (front tail : Bytes) (records records' : List Bytes), tail.length = EOCD_LEN → word32 tail 16 = front.length →
      (∀ r ∈ records, r.length = recordLength r) → records.Perm records' →
        ((∃ a, auditZip sha256 fold isNormalized limits (front ++ (records.flatten ++ tail)) = .ok a) ↔
          ∃ a, auditZip sha256 fold isNormalized limits (front ++ (records'.flatten ++ tail)) = .ok a) := by
  refine ⟨safe_auditZip sha256, ?_, ?_⟩
  · intro file a h
    obtain ⟨cs, rs, parts, order, dataOffsets, eocd, haudit, -, hentries⟩ := audit_of_ok h
    rw [hentries]
    refine ⟨⟨_, _, eocd, haudit.layout, haudit.entries⟩, haudit.within, ?_, ?_⟩
    · rw [haudit.map_entries (g := Central.name) fun _ _ => rfl]
      exact haudit.apart.distinct
    · intro e he
      obtain ⟨r, c, d, hr, rfl⟩ := haudit.record_of_mem he
      exact (checkName_ok hr.2.name).2
  · intro front tail records records' hlength hoffset hrecords hperm
    refine ⟨accepted_of_perm hlength hoffset hrecords hperm, accepted_of_perm hlength hoffset ?_ hperm.symm⟩
    exact fun r hr => hrecords r (hperm.mem_iff.mpr hr)

/-- An archive of one stored file `a/b`, the byte `A`. -/
def smallArchive : Bytes :=
  [0x50, 0x4b, 3, 4, 20, 0, 0, 0, 0, 0, 0, 0, 0, 0, 0x8b, 0x9e, 0xd9, 0xd3, 1, 0, 0, 0, 1, 0, 0, 0, 3, 0, 0, 0, 97, 47, 98, 65,
    0x50, 0x4b, 1, 2, 20, 0, 20, 0, 0, 0, 0, 0, 0, 0, 0, 0, 0x8b, 0x9e, 0xd9, 0xd3, 1, 0, 0, 0, 1, 0, 0, 0, 3, 0, 0, 0, 0, 0,
    0, 0, 0, 0, 0, 0, 0, 0, 0, 0, 0, 0, 97, 47, 98,
    0x50, 0x4b, 5, 6, 0, 0, 0, 0, 1, 0, 1, 0, 49, 0, 0, 0, 34, 0, 0, 0, 0, 0]

theorem one_reading_of_small_archive : ∃ pieces order eocd, Layout smallArchive pieces order eocd ∧
      pieces.map Piece.entry = [⟨['a', '/', 'b'], .stored, 1, 1, 0xd3d99e8b, false, 33⟩] := by
  have h : auditZip (fun _ => "") id (fun _ => true) {} smallArchive =
      .ok ⟨105, "", [⟨['a', '/', 'b'], .stored, 1, 1, 0xd3d99e8b, false, 33⟩]⟩ := by decide +kernel
  obtain ⟨⟨pieces, order, eocd, hlayout, hentries⟩, -⟩ :=
    (audited_has_one_reading (fun _ => "") id (fun _ => true) {}).2.1 _ _ h
  exact ⟨pieces, order, eocd, hlayout, hentries.symm⟩

end Plur1bus.Ext
