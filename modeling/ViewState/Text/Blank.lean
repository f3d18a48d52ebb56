/-!
White space: the characters with the Unicode property White_Space, and texts without it at
either end.
-/
namespace ViewState.Text

/-- The 25 characters with the property White_Space. -/
def blanks : List Char :=
  ['\t', '\n', '\x0b', '\x0c', '\r', ' ', '\u0085', '\u00a0', '\u1680', '\u2000', '\u2001',
    '\u2002', '\u2003', '\u2004', '\u2005', '\u2006', '\u2007', '\u2008', '\u2009', '\u200a',
    '\u2028', '\u2029', '\u202f', '\u205f', '\u3000']

def isBlank (c : Char) : Bool := blanks.contains c

def trimChars (cs : List Char) : List Char :=
  ((cs.dropWhile isBlank).reverse.dropWhile isBlank).reverse

def isTrimmed (s : String) : Bool := !s.front?.any isBlank && !s.back?.any isBlank

/-- A text without the white space at its two ends. A text that has none there is not looked
through. -/
def trim (s : String) : String := if isTrimmed s then s else String.ofList (trimChars s.toList)

theorem dropWhile_eq_self {cs : List Char} (h : cs.head?.any isBlank = false) :
    cs.dropWhile isBlank = cs := by
  cases cs with
  | nil => rfl
  | cons c cs => simp_all

theorem trimChars_eq_self {cs : List Char} (head : cs.head?.any isBlank = false)
    (last : cs.getLast?.any isBlank = false) : trimChars cs = cs := by
  rw [trimChars, dropWhile_eq_self head, dropWhile_eq_self, List.reverse_reverse]
  rwa [List.head?_reverse]

theorem trim_eq (s : String) : trim s = String.ofList (trimChars s.toList) := by
  unfold trim
  split
  · next h =>
    simp only [isTrimmed, Bool.and_eq_true, Bool.not_eq_true', String.front?_eq,
      String.back?_eq] at h
    rw [trimChars_eq_self h.1 h.2, String.ofList_toList]
  · rfl

theorem exists_dropWhile (cs : List Char) :
    ∃ before, (∀ c ∈ before, isBlank c) ∧ cs = before ++ cs.dropWhile isBlank :=
  ⟨cs.takeWhile isBlank, List.all_eq_true.1 List.all_takeWhile,
    List.takeWhile_append_dropWhile.symm⟩

/-- A text is its trimmed form between white space. -/
theorem exists_trim (s : String) :
    ∃ before after : String, (∀ c ∈ before.toList, isBlank c) ∧ (∀ c ∈ after.toList, isBlank c) ∧
      s = before ++ trim s ++ after := by
  obtain ⟨before, hbefore, hfront⟩ := exists_dropWhile s.toList
  obtain ⟨after, hafter, hback⟩ := exists_dropWhile (s.toList.dropWhile isBlank).reverse
  refine ⟨.ofList before, .ofList after.reverse, by simpa using hbefore, by simpa using hafter, ?_⟩
  rw [← String.toList_inj, String.toList_append, String.toList_append, trim_eq,
    String.toList_ofList, String.toList_ofList, String.toList_ofList, trimChars,
    List.append_assoc, ← List.reverse_append, ← hback, List.reverse_reverse, ← hfront]

theorem trimChars_between {before after : List Char} (hbefore : ∀ c ∈ before, isBlank c)
    (hafter : ∀ c ∈ after, isBlank c) (cs : List Char) :
    trimChars (before ++ cs ++ after) = trimChars cs := by
  rw [trimChars, trimChars, List.append_assoc, List.dropWhile_append_of_pos hbefore,
    List.dropWhile_append]
  split
  · next hempty =>
    rw [List.isEmpty_iff.1 hempty, ← List.append_nil after,
      List.dropWhile_append_of_pos hafter, List.dropWhile_nil]
  · rw [List.reverse_append, List.dropWhile_append_of_pos]
    exact fun c hc => hafter c (List.mem_reverse.1 hc)

theorem trim_between {before after : String} (hbefore : ∀ c ∈ before.toList, isBlank c)
    (hafter : ∀ c ∈ after.toList, isBlank c) (s : String) :
    trim (before ++ s ++ after) = trim s := by
  rw [trim_eq, trim_eq, String.toList_append, String.toList_append,
    trimChars_between hbefore hafter]

theorem trim_eq_self {s : String} (h : ∀ c ∈ s.toList, isBlank c = false) : trim s = s := by
  have hend {tip : Option Char} (hmem : ∀ c ∈ tip, c ∈ s.toList) :
      tip.any isBlank = false := by
    cases tip with
    | none => rfl
    | some c => exact h c (hmem c rfl)
  rw [trim_eq, trimChars_eq_self (hend fun _ => List.mem_of_mem_head?)
    (hend fun _ => List.mem_of_mem_getLast?), String.ofList_toList]

end ViewState.Text
