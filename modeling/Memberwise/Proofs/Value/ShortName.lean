import Memberwise.Value.TypeName

/-!
# Short names of types

Delimiters cut a name into segments, and of each segment the part behind its last `::` is kept (`TypeName.lastPart`).
At a delimiter a name falls into two that are shortened each by itself (`TypeName.strip_append_delimiter`). So what
holds of segments, and is kept when a segment is put in front of a delimiter and the rest, holds of all names
(`TypeName.segment_induction`).

A short name has the delimiters of the name and no `::`, and a name without `::` is short already. Hence shortening
twice is shortening once (`TypeName.short_segmentwise`).
-/

namespace Memberwise.TypeName

/-- No two colons stand side by side. -/
def Pathless (l : List Char) : Prop := ¬ "::".toList <:+: l

/-- What stands behind the last `::` of a segment. -/
def lastPart (segment : List Char) : List Char := (untilPath segment.reverse).reverse

variable {l : List Char} {d : Char}

/-! ### Paths -/

theorem ne_colon_of_isDelimiter (hd : isDelimiter d) : d ≠ ':' := by
  rintro rfl
  exact absurd hd (by decide)

theorem pathless_cons {c : Char} : Pathless (c :: l) ↔ ¬ (c = ':' ∧ [':'] <+: l) ∧ Pathless l := by
  have hcolons : "::".toList = [':', ':'] := by decide
  rw [Pathless, Pathless, hcolons, List.infix_cons_iff, List.cons_prefix_cons, not_or, eq_comm (a := ':')]

theorem pathless_reverse : Pathless l.reverse ↔ Pathless l := by
  have hcolons : "::".toList.reverse = "::".toList := by decide
  rw [Pathless, Pathless, ← List.reverse_infix, hcolons, List.reverse_reverse]

/-- A delimiter does not join two colons. -/
theorem pathless_append_cons (hd : isDelimiter d) (a b : List Char) :
    Pathless (a ++ d :: b) ↔ Pathless a ∧ Pathless b := by
  have hcolon := ne_colon_of_isDelimiter hd
  induction a with
  | nil =>
    have hnil : Pathless [] := by simp [Pathless]
    simp [pathless_cons, hcolon, hnil]
  | cons c a ih =>
    have hhead : [':'] <+: a ++ d :: b ↔ [':'] <+: a := by
      cases a with
      | nil => simp [hcolon.symm]
      | cons c' a => simp
    rw [List.cons_append, pathless_cons, pathless_cons, hhead, and_assoc]
    exact and_congr_right fun _ => ih

/-- What is dropped from the reversed segment starts with `::`, or is nothing. -/
theorem exists_untilPath_append (l : List Char) :
    ∃ path, l = untilPath l ++ path ∧ (path = [] ∨ "::".toList <+: path) := by
  fun_induction untilPath l with
  | case1 => exact ⟨[], rfl, .inl rfl⟩
  | case2 rest => exact ⟨_, rfl, .inr ⟨rest, rfl⟩⟩
  | case3 c rest _ ih =>
    obtain ⟨path, hrest, hpath⟩ := ih
    exact ⟨path, congrArg (c :: ·) hrest, hpath⟩

theorem pathless_untilPath (l : List Char) : Pathless (untilPath l) := by
  fun_induction untilPath l with
  | case1 => simp [Pathless]
  | case2 rest => simp [Pathless]
  | case3 c rest hno ih =>
    refine pathless_cons.2 ⟨?_, ih⟩
    rintro ⟨hc, hfirst⟩
    obtain ⟨path, hrest, -⟩ := exists_untilPath_append rest
    obtain ⟨tail, htail⟩ := hfirst.trans ⟨path, hrest.symm⟩
    exact hno tail hc htail.symm

theorem untilPath_of_pathless (h : Pathless l) : untilPath l = l := by
  fun_induction untilPath l with
  | case1 => rfl
  | case2 rest => exact absurd ⟨[], rest, rfl⟩ h
  | case3 c rest _ ih => rw [ih (pathless_cons.1 h).2]

/-! ### Segments -/

theorem pathless_lastPart (segment : List Char) : Pathless (lastPart segment) :=
  pathless_reverse.2 (pathless_untilPath segment.reverse)

theorem lastPart_of_pathless (h : Pathless l) : lastPart l = l := by
  rw [lastPart, untilPath_of_pathless (pathless_reverse.2 h), List.reverse_reverse]

/-- In front of the last part there is a path that ends with `::`, or nothing. -/
theorem exists_append_lastPart (segment : List Char) :
    ∃ path, segment = path ++ lastPart segment ∧ (path = [] ∨ "::".toList <:+ path) := by
  obtain ⟨path, hsegment, hpath⟩ := exists_untilPath_append segment.reverse
  refine ⟨path.reverse, ?_, ?_⟩
  · rw [lastPart, ← List.reverse_append, ← hsegment, List.reverse_reverse]
  · rcases hpath with rfl | hpath
    · exact .inl rfl
    · exact .inr (List.reverse_suffix.2 hpath)

/-! ### Names -/

theorem strip_of_segment (h : ∀ c ∈ l, ¬ isDelimiter c) (pending : List Char) :
    strip pending l = (untilPath (l.reverse ++ pending)).reverse := by
  induction l generalizing pending with
  | nil => rfl
  | cons c rest ih =>
    obtain ⟨hc, hrest⟩ := List.forall_mem_cons.1 h
    rw [strip, if_neg hc, ih hrest, List.reverse_cons, List.append_assoc]
    rfl

theorem strip_eq_lastPart (h : ∀ c ∈ l, ¬ isDelimiter c) : strip [] l = lastPart l := by
  rw [strip_of_segment h, List.append_nil, lastPart]

/-- What stands in front of a delimiter and what stands behind it are shortened each by itself. -/
theorem strip_append_delimiter (hd : isDelimiter d) (pending a b : List Char) :
    strip pending (a ++ d :: b) = strip pending a ++ d :: strip [] b := by
  induction a generalizing pending with
  | nil => rw [List.nil_append, strip, strip, if_pos hd]
  | cons c a ih =>
    rw [List.cons_append, strip, strip]
    split
    · rw [ih, List.append_assoc, List.cons_append]
    · exact ih (c :: pending)

/-- Every name is one segment, or a segment with a delimiter and another name behind it. -/
theorem segment_induction {P : List Char → Prop} (one : ∀ l, (∀ c ∈ l, ¬ isDelimiter c) → P l)
    (more : ∀ l d rest, (∀ c ∈ l, ¬ isDelimiter c) → isDelimiter d → P rest → P (l ++ d :: rest)) (l : List Char) :
    P l := by
  have hpending : ∀ pending, (∀ c ∈ pending, ¬ isDelimiter c) → P (pending ++ l) := by
    induction l with
    | nil =>
      intro pending h
      rw [List.append_nil]
      exact one pending h
    | cons c rest ih =>
      intro pending h
      by_cases hc : isDelimiter c
      · exact more pending c rest h hc (ih [] (List.forall_mem_nil _))
      · rw [← List.concat_append]
        apply ih
        simpa [hc, or_imp, forall_and] using h
  exact hpending [] (List.forall_mem_nil _)

theorem pathless_strip (l : List Char) : Pathless (strip [] l) := by
  induction l using segment_induction with
  | one l h =>
    rw [strip_eq_lastPart h]
    exact pathless_lastPart l
  | more l d rest h hd ih =>
    rw [strip_append_delimiter hd, strip_eq_lastPart h, pathless_append_cons hd]
    exact ⟨pathless_lastPart l, ih⟩

theorem strip_of_pathless (h : Pathless l) : strip [] l = l := by
  induction l using segment_induction with
  | one l hl => rw [strip_eq_lastPart hl, lastPart_of_pathless h]
  | more l d rest hl hd ih =>
    obtain ⟨hsegment, hrest⟩ := (pathless_append_cons hd l rest).1 h
    rw [strip_append_delimiter hd, strip_eq_lastPart hl, lastPart_of_pathless hsegment, ih hrest]

theorem filter_strip (l : List Char) : (strip [] l).filter isDelimiter = l.filter isDelimiter := by
  have hsegment : ∀ l : List Char, (∀ c ∈ l, ¬ isDelimiter c) →
      (lastPart l).filter isDelimiter = l.filter isDelimiter := by
    intro l h
    obtain ⟨path, hpath, -⟩ := exists_append_lastPart l
    have hlast : ∀ c ∈ lastPart l, ¬ isDelimiter c := fun c hc =>
      h c (by rw [hpath]; exact List.mem_append_right path hc)
    rw [List.filter_eq_nil_iff.2 h, List.filter_eq_nil_iff.2 hlast]
  induction l using segment_induction with
  | one l h => rw [strip_eq_lastPart h, hsegment l h]
  | more l d rest h hd ih =>
    rw [strip_append_delimiter hd, strip_eq_lastPart h, List.filter_append, List.filter_append, hsegment l h,
      List.filter_cons_of_pos hd, List.filter_cons_of_pos hd, ih]

theorem toList_short (name : String) : (short name).toList = strip [] name.toList := String.toList_ofList

/-- What the short name of a type is. It has no `::`, and the delimiters of the name in their order. At a delimiter the
name can be shortened piece by piece. Where there is no delimiter, the name is the short name with a path in front that
is empty or ends with `::`. A short name stays as it is. -/
theorem short_segmentwise (name : String) :
    ¬ "::".toList <:+: (short name).toList ∧
      (short name).toList.filter isDelimiter = name.toList.filter isDelimiter ∧
      (∀ (a b : String) (d : Char), isDelimiter d →
        short (a ++ String.singleton d ++ b) = short a ++ String.singleton d ++ short b) ∧
      ((∀ c ∈ name.toList, ¬ isDelimiter c) →
        ∃ path, name = path ++ short name ∧ (path = "" ∨ "::".toList <:+ path.toList)) ∧
      short (short name) = short name := by
  refine ⟨?_, ?_, fun a b d hd => ?_, fun h => ?_, ?_⟩
  · rw [toList_short]
    exact pathless_strip name.toList
  · rw [toList_short, filter_strip]
  · have hcut := strip_append_delimiter hd [] a.toList b.toList
    apply String.toList_inj.1
    simpa only [toList_short, String.toList_append, String.toList_singleton, List.append_assoc, List.cons_append,
      List.nil_append] using hcut
  · obtain ⟨path, hname, hpath⟩ := exists_append_lastPart name.toList
    rw [← strip_eq_lastPart h, ← toList_short] at hname
    have htext : (String.ofList path).toList = path := String.toList_ofList
    refine ⟨String.ofList path, ?_, ?_⟩
    · apply String.toList_inj.1
      rw [String.toList_append, htext, ← hname]
    · rw [htext]
      exact hpath.imp_left (congrArg String.ofList)
  · apply String.toList_inj.1
    rw [toList_short, toList_short, strip_of_pathless (pathless_strip name.toList)]

/-- The name of a list of texts is shortened on both sides of the first bracket, and that of a text has its path in
front. -/
theorem short_segmentwise_vec :
    isDelimiter '<' ∧
      short ("alloc::vec::Vec" ++ "<" ++ "alloc::string::String>") =
        short "alloc::vec::Vec" ++ "<" ++ short "alloc::string::String>" ∧
      short "alloc::string::String>" = "String>" ∧
      (∀ c ∈ "alloc::string::String".toList, ¬ isDelimiter c) ∧
      ∃ path, "alloc::string::String" = path ++ short "alloc::string::String" ∧
        (path = "" ∨ "::".toList <:+ path.toList) := by
  have hbracket : isDelimiter '<' := by decide
  have hnone : "alloc::string::String".toList.filter isDelimiter = [] := by decide
  have hsegment : ∀ c ∈ "alloc::string::String".toList, ¬ isDelimiter c := List.filter_eq_nil_iff.1 hnone
  obtain ⟨-, -, hcut, hpath, -⟩ := short_segmentwise "alloc::string::String"
  exact ⟨hbracket, hcut _ _ '<' hbracket, by decide, hsegment, hpath hsegment⟩

end Memberwise.TypeName
