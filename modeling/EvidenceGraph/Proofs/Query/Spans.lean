/-
# `EvidenceGraph.Proofs.Query.Spans` — where the lexemes of a text stand.

No lexeme is empty, and each one stops before the next one starts, all of them inside the text that was cut
(`laid_lexFrom`). So any two places of lexemes, the first one not behind the second, are the ends of a range
of the text. A quoted string that is never closed is the last lexeme and runs to the end of the text
(`last_of_openQuote`).
-/
import EvidenceGraph.Proofs.Query.Pieces

namespace EvidenceGraph.Query

open EvidenceGraph.Text

/-! ## Ranges that follow one another -/

/-- Lexemes that lie one behind the other between two places, none of them empty. -/
inductive Laid (stop : Nat) : Nat → List Lexeme → Prop
  | nil {start : Nat} : start ≤ stop → Laid stop start []
  | cons {start : Nat} {l : Lexeme} {ls : List Lexeme} :
      start ≤ l.start → l.start < l.stop → Laid stop l.stop ls → Laid stop start (l :: ls)

variable {start stop : Nat} {ls : List Lexeme}

theorem Laid.le (h : Laid stop start ls) : start ≤ stop := by
  induction h with
  | nil hle => exact hle
  | cons hstart hne _ ih => omega

/-- Lexemes that are laid from a place on are laid from any place before it. -/
theorem Laid.from_earlier {earlier : Nat} (h : Laid stop start ls) (hle : earlier ≤ start) :
    Laid stop earlier ls := by
  cases h with
  | nil hend => exact .nil (Nat.le_trans hle hend)
  | cons hstart hne hmore => exact .cons (Nat.le_trans hle hstart) hne hmore

/-- Every lexeme covers a range between the two places. -/
theorem Laid.range (h : Laid stop start ls) {l : Lexeme} (hl : l ∈ ls) :
    start ≤ l.start ∧ l.start < l.stop ∧ l.stop ≤ stop := by
  induction h with
  | nil => cases hl
  | @cons start first more hstart hne hmore ih =>
    rcases List.mem_cons.1 hl with rfl | hl
    · exact ⟨hstart, hne, hmore.le⟩
    · obtain ⟨hlater, hrange⟩ := ih hl
      exact ⟨by omega, hrange⟩

/-- Lexemes that lie one behind the other do not overlap. -/
theorem Laid.pairwise {start stop : Nat} {ls : List Lexeme} (h : Laid stop start ls) :
    ls.Pairwise fun l m => l.stop ≤ m.start := by
  induction h with
  | nil => exact .nil
  | cons _ _ hmore ih => exact .cons (fun m hm => (hmore.range hm).1) ih

/-- From the start of a lexeme to the stop of the same or a later one there is a range of the text. -/
theorem Laid.between (h : Laid stop start ls) {i j : Nat} (hij : i ≤ j) {first last : Lexeme}
    (hfirst : ls[i]? = some first) (hlast : ls[j]? = some last) :
    first.start < last.stop ∧ last.stop ≤ stop := by
  induction h generalizing i j with
  | nil => cases hfirst
  | @cons start l more hstart hne hmore ih =>
    cases i with
    | succ i =>
      obtain ⟨j, rfl⟩ := Nat.exists_eq_add_one_of_ne_zero (Nat.ne_zero_of_lt hij)
      exact ih (Nat.le_of_succ_le_succ hij) hfirst hlast
    | zero =>
      obtain rfl : l = first := Option.some.inj hfirst
      cases j with
      | zero =>
        obtain rfl : l = last := Option.some.inj hlast
        exact ⟨hne, hmore.le⟩
      | succ j =>
        obtain ⟨hlater, hrange⟩ := hmore.range (List.mem_of_getElem? hlast)
        exact ⟨by omega, hrange.2⟩

/-! ## The lexemes of a text -/

/-- The lexemes of a text lie in it one behind the other. -/
theorem laid_lexFrom (start : Nat) (cs : List Char) :
    Laid (start + cs.length) start (lexFrom start cs).lexemes := by
  fun_induction lexFrom start cs with
  | case1 start => exact .nil (Nat.le_add_right start 0)
  | case2 start c cs hblank ih =>
    rw [List.length_cons, Nat.add_comm cs.length, ← Nat.add_assoc]
    exact ih.from_earlier (Nat.le_succ start)
  | case3 start c cs hblank found stop later ih =>
    have hshorter : found.rest.length ≤ cs.length := scan_rest_length c cs
    have hstop : stop = start + (cs.length + 1 - found.rest.length) := rfl
    have hend : stop + found.rest.length = start + (c :: cs).length := by
      rw [List.length_cons]
      omega
    rw [hend] at ih
    have hne : start < stop := by omega
    exact .cons (Nat.le_refl start) hne ih

/-- The lexemes of a text lie in it one behind the other. -/
theorem laid_lex (text : List Char) : Laid text.length 0 (lex text).lexemes := by
  have hlaid := laid_lexFrom 0 text
  rwa [Nat.zero_add] at hlaid

/-! ## Open quotes -/

/-- A quoted string that is never closed leaves nothing over. -/
theorem rest_of_open {quote : Char} {cs : List Char} (h : (Quoted.read quote cs).closed = false) :
    (Quoted.read quote cs).rest = [] := by
  fun_induction Quoted.read quote cs with
  | case1 | case3 => rfl
  | case2 | case5 => cases h
  | case4 cs ih => exact ih h
  | case6 c d cs hquote ih => exact ih h

theorem rest_of_open_scan {c : Char} {cs : List Char} (h : (scan c cs).closed = false) :
    (scan c cs).rest = [] := by
  by_cases hquote : c = '\'' ∨ c = '"'
  · rw [scan_quote hquote] at h ⊢
    exact rest_of_open h
  · -- all other tokens are complete
    simp only [scan, hquote, if_false] at h
    repeat' split at h
    all_goals cases h

/-- An open quote is the last lexeme, and runs to the end of the text. -/
theorem last_of_openQuote {start place : Nat} {cs : List Char} (h : (lexFrom start cs).openQuote = some place) :
    ∃ before last, (lexFrom start cs).lexemes = before ++ [last] ∧ last.start = place ∧
      last.stop = start + cs.length := by
  fun_induction lexFrom start cs with
  | case1 => cases h
  | case2 start c cs hblank ih =>
    obtain ⟨before, last, hlexemes, hstart, hstop⟩ := ih h
    refine ⟨before, last, hlexemes, hstart, ?_⟩
    rw [hstop, List.length_cons]
    omega
  | case3 start c cs hblank found stop later ih =>
    have hshorter : found.rest.length ≤ cs.length := scan_rest_length c cs
    cases hclosed : found.closed with
    | true =>
      have hlater : later.openQuote = some place := by simpa [hclosed] using h
      obtain ⟨before, last, hlexemes, hstart, hstop⟩ := ih hlater
      refine ⟨⟨found.token, start, stop⟩ :: before, last, by rw [hlexemes]; rfl, hstart, ?_⟩
      rw [hstop, List.length_cons]
      show start + (cs.length + 1 - found.rest.length) + found.rest.length = _
      omega
    | false =>
      have hplace : start = place := by simpa [hclosed] using h
      have hrest : found.rest = [] := rest_of_open_scan hclosed
      refine ⟨[], ⟨found.token, start, stop⟩, ?_, hplace, ?_⟩
      · show _ :: (lexFrom stop found.rest).lexemes = _
        rw [hrest, lexFrom]
        rfl
      · show start + (cs.length + 1 - found.rest.length) = _
        rw [hrest]
        rfl

end EvidenceGraph.Query
