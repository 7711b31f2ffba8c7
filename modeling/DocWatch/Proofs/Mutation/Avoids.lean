import DocWatch.Proofs.Json.Text
import DocWatch.Proofs.Mutation.Apply
import DocWatch.Proofs.Update.Avoids

/-!
# Records that avoid a member

Where a record writes, the path starts with the member that the path of the record starts with: the
references in it are resolved, and no reference stands for a member of a document. So a record whose
path avoids a reserved member, such as the identity or the mark of deletion, makes no operator that
writes to it, but for a deletion, which makes the mark.

- `Mutation.Avoids`: records whose path does not touch a member.
- `Mutation.Makes.avoids`: the operators of records that avoid a member.
- `Mutation.Makes.keepsMark`: the operators of records that avoid the mark, and of deletions, leave
  marked documents marked.
-/

namespace DocWatch

/-- The first step of a resolved path is that of the path, or a position. -/
theorem MutationPath.head_of_resolve {doc : Option Json} {segment : Segment}
    {rest resolved : MutationPath} (h : resolve doc (segment :: rest) = .ok resolved) :
    ∃ first more, resolved = first :: more ∧ (first = segment ∨ ∃ i, first = .index i) := by
  have hcons : ∀ (first : Segment) (r : Except Error MutationPath),
      (first :: ·) <$> r = .ok resolved → ∃ more, resolved = first :: more := by
    rintro first (e | more) hr
    · cases hr
    · exact ⟨more, (Except.ok.inj hr).symm⟩
  unfold resolve at h
  by_cases href : hasRefs (segment :: rest) = true
  · rw [if_pos href] at h
    cases segment with
    | literal key =>
      obtain ⟨more, hmore⟩ := hcons _ _ h
      exact ⟨_, more, hmore, .inl rfl⟩
    | index i =>
      obtain ⟨more, hmore⟩ := hcons _ _ h
      exact ⟨_, more, hmore, .inl rfl⟩
    | ref id =>
      rw [resolveFrom] at h
      cases hfound : (doc.bind Json.items?).bind (findRef? id) with
      | none =>
        rw [hfound] at h
        cases h
      | some found =>
        rw [hfound] at h
        obtain ⟨more, hmore⟩ := hcons _ _ h
        exact ⟨_, more, hmore, .inr ⟨_, rfl⟩⟩
  · rw [if_neg href] at h
    exact ⟨segment, rest, (Except.ok.inj h).symm, .inl rfl⟩

/-- No position is spelled like a member whose name begins with an underscore. -/
theorem Segment.text_index_ne {key : String} (hkey : key.toList.head? = some '_') (i : Nat) :
    (Segment.index i).text ≠ key := by
  intro h
  have hmem : '_' ∈ Decimal.natChars i := by
    have hchars := congrArg String.toList h
    rw [Segment.text, String.toList_ofList] at hchars
    rw [hchars]
    exact List.mem_of_mem_head? hkey
  exact absurd (Json.numeric_natChars hmem) (by decide)

namespace Mutation

/-- The path of the record, if it has one, is neither the root nor starts at this member. -/
def Avoids (key : String) (m : Mutation) : Prop :=
  ∀ path, m.path? = some path → FieldPath.Avoids key (path.map Segment.text)

/-- The operators of a record that avoids a member avoid it too, but for the one that makes the mark
of deletion. -/
theorem Makes.avoids {m : Mutation} {op : Operator} (h : m.Makes op) {key : String}
    (hkey : key.toList.head? = some '_') (hm : m.Avoids key) :
    op.path.Avoids key ∨ ∃ value, op = .set [Document.deletedField] value := by
  cases h with
  | mark value => exact .inr ⟨value, rfl⟩
  | place hpath hresolve hplace htarget =>
    rename_i path resolved place asked below doc
    refine .inl ?_
    obtain ⟨htext, hne⟩ := MutationPath.target_ok htarget
    obtain ⟨hpathne, hhead⟩ := hm path hpath
    obtain ⟨segment, rest, rfl⟩ : ∃ segment rest, path = segment :: rest :=
      List.exists_cons_of_ne_nil fun he => hpathne (he ▸ rfl)
    obtain ⟨first, more, rfl, hfirst⟩ := MutationPath.head_of_resolve hresolve
    obtain ⟨start, tail, rfl⟩ : ∃ start tail, place = start :: tail :=
      List.exists_cons_of_ne_nil fun he => hne (htext.trans (he ▸ rfl))
    -- both start with the same step
    obtain ⟨rfl, -⟩ := List.cons_prefix_cons.mp hplace
    refine ⟨hne, fun he => ?_⟩
    have hstart : start.text = key := by
      rw [htext] at he
      exact Option.some.inj he
    rcases hfirst with rfl | ⟨i, rfl⟩
    · exact hhead (congrArg some hstart)
    · exact Segment.text_index_ne hkey i hstart

/-- Whatever such a record updates a document with, alone or with the record of the write, leaves a
marked document marked. -/
theorem Makes.keepsMark {m : Mutation} {op : Operator} (h : m.Makes op)
    (hm : m.Avoids Document.deletedField) : Update.KeepsMark [op] := by
  rcases h.avoids (by decide) hm with havoids | ⟨value, rfl⟩
  · refine Update.keepsMark_of_avoids fun op' hop' => ?_
    rw [List.mem_singleton.mp hop']
    exact havoids
  · intro doc new hrun hdeleted
    refine Update.isDeleted_of_run_mark ?_ hrun
    cases doc with
    | obj fields => rfl
    | _ => cases hdeleted

end Mutation
end DocWatch
