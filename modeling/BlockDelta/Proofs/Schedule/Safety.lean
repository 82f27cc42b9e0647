import BlockDelta.Proofs.Schedule.Order

/-!
# Copies that run read nothing that was overwritten

What a copy reads and what it writes are sets of offsets. One copy clobbers
another when an offset that it writes is one that the other reads. The conflict
lists of the search say the same of the copies' numbers, so the order that the
search finds can be stated on the offsets alone: of two copies that are run,
the earlier one writes no offset that the later one reads.
-/

namespace BlockDelta

namespace CopySpan

/-- The offsets that a copy reads. -/
def reads (span : CopySpan) : Set Nat := Set.Ico span.source span.readStop

/-- The offsets that a copy writes. -/
def writes (span : CopySpan) : Set Nat := Set.Ico span.target span.writeStop

/-- A write and a read share an offset exactly when neither is empty and the write destroys what is
read. -/
theorem inter_nonempty_iff (writer reader : CopySpan) :
    (writer.writes ∩ reader.reads).Nonempty ↔
      0 < writer.length ∧ 0 < reader.length ∧ writer.overwrites reader = true := by
  rw [writes, reads, Set.Ico_inter_Ico, Set.nonempty_Ico, overwrites_iff]
  unfold readStop writeStop
  omega

end CopySpan

namespace Schedule

/-- Of two different copies, the first one writes an offset that the second one reads. An empty copy
writes none and reads none. -/
def Clobbers (spans : List CopySpan) (writer reader : Nat) : Prop :=
  writer ≠ reader ∧ ∃ writing reading, spans[writer]? = some writing ∧
    spans[reader]? = some reading ∧ (writing.writes ∩ reading.reads).Nonempty

/-- A number that stands for a copy leads to it. -/
theorem getElem?_eq_getD {spans : List CopySpan} {number : Nat} (known : number < spans.length) :
    spans[number]? = some (spans.toArray.getD number default) := by
  rw [List.getElem?_eq_getElem known, ← Array.getElem_eq_getD (h := by simpa using known)]
  rfl

/-- The conflicts that the search goes by are the pairs of copies that share an offset. -/
theorem conflict_iff_clobbers (spans : List CopySpan) (writer reader : Nat) :
    Conflict spans.toArray writer reader ↔ Clobbers spans writer reader := by
  constructor
  · rintro ⟨writes, reads, other, shared⟩
    have writing : writer < spans.length := by simpa using writes
    have reading : reader < spans.length := by simpa using reads
    exact ⟨other, _, _, getElem?_eq_getD writing, getElem?_eq_getD reading,
      (CopySpan.inter_nonempty_iff ..).2 shared⟩
  · rintro ⟨other, writing, reading, writes, reads, shared⟩
    have first : writer < spans.length := (List.getElem?_eq_some_iff.1 writes).1
    have second : reader < spans.length := (List.getElem?_eq_some_iff.1 reads).1
    rw [getElem?_eq_getD first] at writes
    rw [getElem?_eq_getD second] at reads
    cases writes
    cases reads
    exact ⟨by simpa using first, by simpa using second, other,
      (CopySpan.inter_nonempty_iff ..).1 shared⟩

/-- Of the copies that are run, none clobbers one that is run behind it. -/
theorem pairwise_not_clobbers (spans : List CopySpan) :
    (ofSpans spans).order.Pairwise fun earlier later => ¬Clobbers spans earlier later :=
  (pairwise_order spans).imp fun free clobbers => free ((conflict_iff_clobbers ..).2 clobbers)

/-- No copy is both run and kept, and none twice. -/
theorem nodup_ofSpans (spans : List CopySpan) :
    ((ofSpans spans).order ++ (ofSpans spans).fallback).Nodup :=
  (perm_ofSpans spans).nodup_iff.2 List.nodup_range

/-- No copy is run twice. -/
theorem nodup_order (spans : List CopySpan) : (ofSpans spans).order.Nodup :=
  (List.nodup_append.1 (nodup_ofSpans spans)).1

/-- The copies that are run are those that are not kept in memory. -/
theorem mem_order_iff {spans : List CopySpan} {copy : Nat} :
    copy ∈ (ofSpans spans).order ↔ copy < spans.length ∧ copy ∉ (ofSpans spans).fallback := by
  have all : copy ∈ (ofSpans spans).order ++ (ofSpans spans).fallback ↔ copy < spans.length := by
    rw [(perm_ofSpans spans).mem_iff, List.mem_range]
  have apart := (List.nodup_append.1 (nodup_ofSpans spans)).2.2
  rw [List.mem_append] at all
  constructor
  · intro run
    exact ⟨all.1 (.inl run), fun kept => apart copy run copy kept rfl⟩
  · rintro ⟨known, unkept⟩
    exact (all.2 known).resolve_right unkept

/-- The copies kept in memory stand in ascending order. -/
theorem pairwise_fallback (spans : List CopySpan) :
    (ofSpans spans).fallback.Pairwise fun earlier later => earlier < later := by
  have distinct : (ofSpans spans).fallback.Nodup := (List.nodup_append.1 (nodup_ofSpans spans)).2.1
  have sorted : (ofSpans spans).fallback.SortedLE := List.sortedLE_mergeSort
  exact (sorted.sortedLT_of_nodup distinct).pairwise

/-- Copies within one file are ordered safely, whatever they overlap and however many of them are
empty or equal. Each is either run or kept in memory, and that once; those kept stand in ascending
order. Of two copies that are run, the one that is run first writes no offset that the other one
reads. -/
theorem order_reads_unwritten (spans : List CopySpan) :
    (∀ copy, ((ofSpans spans).order ++ (ofSpans spans).fallback).count copy =
      if copy < spans.length then 1 else 0) ∧
    ((ofSpans spans).fallback.Pairwise fun earlier later => earlier < later) ∧
    (ofSpans spans).order.Pairwise fun earlier later =>
      Disjoint (spans.getD earlier default).writes (spans.getD later default).reads := by
  refine ⟨fun copy => ?_, pairwise_fallback spans, ?_⟩
  · rw [(perm_ofSpans spans).count_eq, List.count_range]
  · have free := (pairwise_not_clobbers spans).and (nodup_order spans)
    refine free.imp_of_mem fun {earlier later} first second both => ?_
    rw [Set.disjoint_iff_inter_eq_empty, ← Set.not_nonempty_iff_eq_empty]
    intro shared
    apply both.1
    refine ⟨both.2, _, _, ?_, ?_, shared⟩
    · rw [List.getD_eq_getElem _ _ (mem_order_iff.1 first).1]
      exact List.getElem?_eq_getElem _
    · rw [List.getD_eq_getElem _ _ (mem_order_iff.1 second).1]
      exact List.getElem?_eq_getElem _

end Schedule

end BlockDelta
