import DocWatch.Proofs.FieldPath
import Mathlib.Order.Bounds.Basic

/-!
# Dotted texts as a code for paths

Writing a path with dots and reading it back are inverse to each other, between the texts without
an empty segment and the paths whose segments are not empty and have no dot. The empty text counts
as one of these texts: it is the root. Where a text cannot be read, the error tells how many bytes
stand before its first empty segment, however many bytes its characters take.

- `FieldPath.Dotless`: the paths that can be written.
- `FieldPath.EmptyAt`: an empty segment of a text and its place, said without splitting the text.
- `FieldPath.parse_eq_ok_iff`: what is read is what was written.
- `FieldPath.ofParts_eq_error_iff`: which place an error tells.
- `FieldPath.dotted_codec`: the main result.
-/

namespace DocWatch.FieldPath

/-- No segment is empty or has a dot. -/
def Dotless (path : FieldPath) : Prop := ∀ segment ∈ path, segment ≠ "" ∧ '.' ∉ segment.toList

/-- An empty segment stands behind this many bytes: between two dots, or between a dot and an end
of the text, or between its two ends. -/
def EmptyAt (cs : List Char) (position : Nat) : Prop :=
  ∃ before after, cs = before ++ after ∧ (String.ofList before).utf8ByteSize = position ∧
    (before = [] ∨ ['.'] <:+ before) ∧ (after = [] ∨ ['.'] <+: after)

/-! ## The first part of a text -/

/-- The first part ends where the text does, or at its first dot. -/
theorem splitDots_eq_cons {cs part : List Char} {parts : List (List Char)}
    (h : splitDots cs = part :: parts) :
    '.' ∉ part ∧ (parts = [] ∧ cs = part ∨
      ∃ rest, cs = part ++ '.' :: rest ∧ splitDots rest = parts) := by
  induction cs generalizing part parts with
  | nil =>
    obtain ⟨rfl, rfl⟩ := List.cons.inj h
    exact ⟨List.not_mem_nil, .inl ⟨rfl, rfl⟩⟩
  | cons c rest ih =>
    rw [splitDots] at h
    by_cases hc : c = '.'
    · rw [if_pos hc] at h
      obtain ⟨rfl, rfl⟩ := List.cons.inj h
      exact ⟨List.not_mem_nil, .inr ⟨rest, by rw [hc]; rfl, rfl⟩⟩
    · rw [if_neg hc] at h
      cases hrest : splitDots rest with
      | nil => exact absurd hrest (splitDots_ne_nil rest)
      | cons first others =>
        rw [hrest] at h
        obtain ⟨rfl, rfl⟩ := List.cons.inj h
        obtain ⟨hdot, hends⟩ := ih hrest
        refine ⟨?_, ?_⟩
        · rw [List.mem_cons, not_or]
          exact ⟨Ne.symm hc, hdot⟩
        · rcases hends with ⟨hothers, rfl⟩ | ⟨rest', rfl, hothers⟩
          · exact .inl ⟨hothers, rfl⟩
          · exact .inr ⟨rest', rfl, hothers⟩

/-- No part has a dot. -/
theorem dot_not_mem_of_mem_splitDots {cs part : List Char} (h : part ∈ splitDots cs) :
    '.' ∉ part := by
  induction hparts : splitDots cs generalizing cs with
  | nil => exact absurd hparts (splitDots_ne_nil cs)
  | cons first others ih =>
    rw [hparts] at h
    obtain ⟨hdot, hends⟩ := splitDots_eq_cons hparts
    rcases List.mem_cons.mp h with rfl | hmem
    · exact hdot
    · rcases hends with ⟨rfl, -⟩ | ⟨rest, -, hrest⟩
      · exact absurd hmem List.not_mem_nil
      · rw [← hrest] at hmem
        exact ih hmem hrest

/-! ## Reading and writing -/

theorem chars_eq_intercalate (path : FieldPath) :
    chars path = ['.'].intercalate (path.map String.toList) := by
  induction path with
  | nil => rfl
  | cons segment rest ih =>
    cases rest with
    | nil => simp [chars]
    | cons next others =>
      rw [chars, ih, List.map_cons, List.map_cons, List.map_cons, List.intercalate_cons_cons,
        List.append_assoc]
      · rfl
      · exact List.cons_ne_nil _ _

/-- What a text spells between its dots is written as this text again. -/
theorem text_dotted (s : String) : text (dotted s) = s := by
  unfold text dotted
  rw [chars_eq_intercalate]
  split_ifs with hs
  · rw [hs]
    rfl
  · have hparts : ((s.toList.splitOn '.').map String.ofList).map String.toList =
        s.toList.splitOn '.' := by
      simp
    rw [hparts, List.intercalate_splitOn, String.ofList_toList]

theorem dotless_dotted {s : String} (h : "" ∉ dotted s) : Dotless (dotted s) := by
  intro segment hmem
  refine ⟨fun he => h (he ▸ hmem), ?_⟩
  unfold dotted at hmem
  split_ifs at hmem with hs
  · exact absurd hmem List.not_mem_nil
  · obtain ⟨part, hpart, rfl⟩ := List.mem_map.mp hmem
    rw [← splitDots_eq_splitOn] at hpart
    rw [String.toList_ofList]
    exact dot_not_mem_of_mem_splitDots hpart

/-- A path that can be written is what stands between the dots of its text. -/
theorem dotted_text {path : FieldPath} (h : Dotless path) : dotted (text path) = path := by
  cases hpath : path with
  | nil => rfl
  | cons segment rest =>
    rw [← hpath]
    have hparts : ∀ part ∈ path.map String.toList, '.' ∉ part := by
      intro part hmem
      obtain ⟨segment', hsegment, rfl⟩ := List.mem_map.mp hmem
      exact (h segment' hsegment).2
    have hne : path.map String.toList ≠ [] := by simp [hpath]
    have hsplit : (chars path).splitOn '.' = path.map String.toList := by
      rw [chars_eq_intercalate]
      exact List.splitOn_intercalate '.' hparts hne
    have htext : text path ≠ "" := by
      intro he
      have hchars : chars path = [] := by
        have := congrArg String.toList he
        rwa [text, String.toList_ofList] at this
      -- the empty text has one part, which is empty
      rw [hchars] at hsplit
      have hempty : [] ∈ path.map String.toList := by
        rw [← hsplit]
        exact List.mem_cons_self
      obtain ⟨segment', hsegment, hnil⟩ := List.mem_map.mp hempty
      exact (h segment' hsegment).1 (String.toList_inj.mp hnil)
    unfold dotted
    rw [if_neg htext, text, String.toList_ofList, hsplit, List.map_map]
    exact List.map_id'' (fun _ => String.ofList_toList) path

/-- **What is read is what was written.** -/
theorem parse_eq_ok_iff (s : String) (path : FieldPath) :
    parse s = .ok path ↔ Dotless path ∧ text path = s := by
  rw [parse_ok_iff]
  constructor
  · rintro ⟨hne, rfl⟩
    exact ⟨dotless_dotted hne, text_dotted s⟩
  · rintro ⟨hpath, rfl⟩
    rw [dotted_text hpath]
    exact ⟨fun hmem => (hpath "" hmem).1 rfl, rfl⟩

/-! ## The first empty segment -/

theorem byteCount_eq (cs : List Char) : byteCount cs = (String.ofList cs).utf8ByteSize := by
  have hfrom : ∀ n, cs.foldl (fun n c => n + c.utf8Size) n =
      n + (String.ofList cs).utf8ByteSize := by
    induction cs with
    | nil => exact fun n => rfl
    | cons c rest ih =>
      intro n
      have hcons : String.ofList (c :: rest) = String.ofList [c] ++ String.ofList rest := by
        rw [← String.ofList_append]
        rfl
      rw [List.foldl_cons, ih, hcons, String.utf8ByteSize_append]
      simp [Nat.add_assoc]
  rw [byteCount, hfrom, Nat.zero_add]

/-- A segment that is not empty has no empty one within. -/
theorem not_emptyAt {part : List Char} (hne : part ≠ []) (hdot : '.' ∉ part) (position : Nat) :
    ¬ EmptyAt part position := by
  rintro ⟨before, after, rfl, -, hbefore, hafter⟩
  rcases hbefore with rfl | hend
  · rcases hafter with rfl | hstart
    · exact hne rfl
    · exact hdot (hstart.subset List.mem_cons_self)
  · exact hdot (List.mem_append_left _ (hend.subset List.mem_cons_self))

/-- Behind a segment that is not empty, the empty ones of the text are those behind its dot. -/
theorem emptyAt_append_iff {part : List Char} (hne : part ≠ []) (hdot : '.' ∉ part)
    (rest : List Char) (position : Nat) :
    EmptyAt (part ++ '.' :: rest) position ↔
      ∃ p, position = byteCount part + 1 + p ∧ EmptyAt rest p := by
  have hbytes : ∀ cs, (String.ofList (part ++ '.' :: cs)).utf8ByteSize =
      byteCount part + 1 + (String.ofList cs).utf8ByteSize := by
    intro cs
    have hone : (String.ofList ['.']).utf8ByteSize = 1 := by decide +kernel
    have happend : String.ofList (part ++ '.' :: cs) =
        String.ofList part ++ (String.ofList ['.'] ++ String.ofList cs) := by
      rw [← String.ofList_append, ← String.ofList_append]
      rfl
    rw [happend, String.utf8ByteSize_append, String.utf8ByteSize_append, hone, byteCount_eq]
    omega
  constructor
  · rintro ⟨before, after, hcs, rfl, hbefore, hafter⟩
    rcases List.append_eq_append_iff.mp hcs with ⟨more, rfl, hmore⟩ | ⟨less, rfl, rfl⟩
    · cases more with
      | nil =>
        -- the segment itself would end with a dot
        rw [List.append_nil] at hbefore
        rcases hbefore with he | hend
        · exact absurd he hne
        · exact absurd (hend.subset List.mem_cons_self) hdot
      | cons c more =>
        obtain ⟨rfl, rfl⟩ := List.cons.inj hmore
        refine ⟨_, hbytes more, more, after, rfl, rfl, ?_, hafter⟩
        refine (Classical.em (more = [])).imp_right fun hmore => ?_
        have hwhole : ['.'] <:+ part ++ '.' :: more := hbefore.resolve_left (by simp)
        refine List.suffix_of_suffix_length_le hwhole ?_ (List.length_pos_iff.mpr hmore)
        exact (List.suffix_cons '.' more).trans (List.suffix_append part _)
    · -- the segment itself would have an empty one
      refine absurd ⟨before, less, rfl, rfl, hbefore, ?_⟩ (not_emptyAt hne hdot _)
      refine (Classical.em (less = [])).imp_right fun hless => ?_
      have hwhole : ['.'] <+: less ++ '.' :: rest := hafter.resolve_left (by simp)
      exact List.prefix_of_prefix_length_le hwhole (List.prefix_append less _)
        (List.length_pos_iff.mpr hless)
  · rintro ⟨p, rfl, before, after, rfl, rfl, hbefore, hafter⟩
    refine ⟨part ++ '.' :: before, after, by simp, hbytes before, .inr ?_, hafter⟩
    rcases hbefore with rfl | hend
    · exact List.suffix_append part ['.']
    · exact hend.trans ((List.suffix_cons _ _).trans (List.suffix_append _ _))

/-- Positions that are counted from further on have their least one further on. -/
theorem isLeast_shift_iff (n position : Nat) (P : Nat → Prop) :
    IsLeast {q | ∃ p, q = n + p ∧ P p} position ↔
      ∃ p, position = n + p ∧ IsLeast {q | P q} p := by
  constructor
  · rintro ⟨⟨p, rfl, hp⟩, hleast⟩
    refine ⟨p, rfl, hp, fun q hq => ?_⟩
    have := hleast ⟨q, rfl, hq⟩
    omega
  · rintro ⟨p, rfl, hp, hleast⟩
    refine ⟨⟨p, rfl, hp⟩, ?_⟩
    rintro _ ⟨q, rfl, hq⟩
    have := hleast hq
    omega

/-- Right at the start there is an empty segment if the first part is empty. -/
theorem emptyAt_zero {cs : List Char} (h : cs = [] ∨ ∃ rest, cs = '.' :: rest) : EmptyAt cs 0 := by
  refine ⟨[], cs, rfl, rfl, .inl rfl, h.imp_right ?_⟩
  rintro ⟨rest, rfl⟩
  exact List.prefix_append ['.'] rest

/-- An error tells the place of the first empty segment, counted from where the parts start. -/
theorem ofParts_eq_error_iff (cs : List Char) (start position : Nat) :
    ofParts start (splitDots cs) = .error (.emptySegment position) ↔
      ∃ p, position = start + p ∧ IsLeast {q | EmptyAt cs q} p := by
  induction hparts : splitDots cs generalizing cs start with
  | nil => exact absurd hparts (splitDots_ne_nil cs)
  | cons part parts ih =>
    obtain ⟨hdot, hends⟩ := splitDots_eq_cons hparts
    rw [ofParts]
    by_cases hpart : part = []
    · rw [if_pos hpart, Except.error.injEq, ParseError.emptySegment.injEq]
      have hzero : EmptyAt cs 0 := by
        refine emptyAt_zero ?_
        rcases hends with ⟨-, rfl⟩ | ⟨rest, rfl, -⟩
        · exact .inl hpart
        · exact .inr ⟨rest, by rw [hpart]; rfl⟩
      constructor
      · rintro rfl
        exact ⟨0, rfl, hzero, fun q _ => Nat.zero_le q⟩
      · rintro ⟨p, rfl, -, hleast⟩
        have := hleast hzero
        omega
    · rw [if_neg hpart]
      rcases hends with ⟨rfl, rfl⟩ | ⟨rest, rfl, hrest⟩
      · refine iff_of_false (by simp [ofParts, Except.map]) ?_
        rintro ⟨p, -, hp, -⟩
        exact not_emptyAt hpart hdot p hp
      · have hmap : ∀ r : Except ParseError FieldPath,
            r.map (String.ofList part :: ·) = .error (.emptySegment position) ↔
              r = .error (.emptySegment position) := by
          intro r
          cases r <;> simp [Except.map]
        simp only [emptyAt_append_iff hpart hdot, isLeast_shift_iff]
        rw [hmap, ih rest _ hrest]
        constructor
        · rintro ⟨p, rfl, hp⟩
          exact ⟨_, by omega, p, rfl, hp⟩
        · rintro ⟨_, rfl, p, rfl, hp⟩
          exact ⟨p, by omega, hp⟩

theorem parse_eq_error_iff (s : String) (position : Nat) :
    parse s = .error (.emptySegment position) ↔
      s ≠ "" ∧ IsLeast {p | EmptyAt s.toList p} position := by
  unfold parse
  split_ifs with hs
  · exact iff_of_false (by simp) fun h => h.1 hs
  · rw [ofParts_eq_error_iff]
    constructor
    · rintro ⟨p, rfl, hp⟩
      rw [Nat.zero_add]
      exact ⟨hs, hp⟩
    · rintro ⟨-, hp⟩
      exact ⟨position, (Nat.zero_add position).symm, hp⟩

/-- A text is read unless it has an empty segment. -/
theorem exists_parse_iff (s : String) :
    (∃ path, parse s = .ok path) ↔ s = "" ∨ ∀ position, ¬ EmptyAt s.toList position := by
  cases hparse : parse s with
  | ok path =>
    refine iff_of_true ⟨path, rfl⟩ (or_iff_not_imp_left.mpr fun hs position hposition => ?_)
    classical
    have hsome : ∃ p, EmptyAt s.toList p := ⟨position, hposition⟩
    have hleast : IsLeast {p | EmptyAt s.toList p} (Nat.find hsome) :=
      ⟨Nat.find_spec hsome, fun q hq => Nat.find_min' hsome hq⟩
    rw [(parse_eq_error_iff s _).mpr ⟨hs, hleast⟩] at hparse
    cases hparse
  | error e =>
    obtain ⟨position⟩ := e
    obtain ⟨hs, hposition, -⟩ := (parse_eq_error_iff s position).mp hparse
    refine iff_of_false ?_ ?_
    · rintro ⟨path, ⟨⟩⟩
    · rintro (he | hnone)
      · exact hs he
      · exact hnone position hposition

/-- **Dotted texts are a code for paths.** A text is read exactly if it is empty or has no empty
segment. A text is read as a path exactly if the path can be written, and is written as this text.
Otherwise the error tells how many bytes stand before the first empty segment. -/
theorem dotted_codec (s : String) :
    ((∃ path, parse s = .ok path) ↔ s = "" ∨ ∀ position, ¬ EmptyAt s.toList position) ∧
    (∀ path, parse s = .ok path ↔ Dotless path ∧ text path = s) ∧
    ∀ position, parse s = .error (.emptySegment position) ↔
      s ≠ "" ∧ IsLeast {p | EmptyAt s.toList p} position :=
  ⟨exists_parse_iff s, parse_eq_ok_iff s, parse_eq_error_iff s⟩

/-- Five characters of seven bytes stand before the end of this text. -/
example : parse "a.éü." = .error (.emptySegment 7) := by decide +kernel

end DocWatch.FieldPath
