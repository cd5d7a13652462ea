/-
# `EvidenceGraph.Proofs.Store.Searching` — what a search in a collection finds.

The tags of a node and the ids it lists are searched in their JSON text, in which a quote, a backslash and a control
character of an item are escaped. So a part of an item is sure to be found if it is a part of its own escaped form
too, as every text without such characters is, or if it is the opening of the array. Any other text is a part of
some item in which it is not found: an item that has the text between long runs of a letter with which it neither
starts nor ends, so that it cannot reach out of its escaped form (`occurs_before_or_behind`). Main statement:
`collection_contains_iff`.
-/
import EvidenceGraph.Proofs.Json.Compact
import EvidenceGraph.Store.Matching

namespace EvidenceGraph

open EvidenceGraph.Json

/-! ## Occurrences -/

/-- A text occurs in another one if it is a part of it. -/
theorem occursIn_iff {needle cs : List Char} : occursIn needle cs ↔ needle <:+: cs := by
  induction cs with
  | nil => simp [occursIn, List.infix_nil]
  | cons c cs ih => rw [occursIn, Bool.or_eq_true, List.isPrefixOf_iff_prefix, ih, List.infix_cons_iff]

section Runs

variable {α : Type} {x : α} {k : Nat} {l : List α}

/-- A part of a run starts with its character, unless it is empty. -/
theorem eq_nil_of_subset_replicate (h : l ⊆ List.replicate k x) (hfirst : l.head? ≠ some x) : l = [] := by
  cases l with
  | nil => rfl
  | cons a l =>
    have ha : a = x := List.eq_of_mem_replicate (h List.mem_cons_self)
    exact absurd (congrArg some ha) hfirst

/-- What occurs around a long run of a character with which it neither starts nor ends occurs before the run or
behind it. -/
theorem occurs_before_or_behind {before behind : List α} (hfirst : l.head? ≠ some x) (hlast : l.getLast? ≠ some x)
    (hk : l.length ≤ k) (h : l <:+: before ++ (List.replicate k x ++ behind)) : l <:+: before ∨ l <:+: behind := by
  rcases List.infix_append_iff.1 h with h | h | ⟨u, v, rfl, hu, hv⟩
  · exact .inl h
  · rcases List.infix_append_iff.1 h with h | h | ⟨u, v, rfl, hu, hv⟩
    · rw [eq_nil_of_subset_replicate h.subset hfirst]
      exact .inl List.nil_infix
    · exact .inr h
    · -- it starts inside the run, so it starts behind it
      have hnone : u = [] := by
        refine eq_nil_of_subset_replicate hu.subset fun hhead => hfirst ?_
        rw [List.head?_append, hhead, Option.some_or]
      rw [hnone]
      exact .inr hv.isInfix
  · -- it is too short to reach over the run, so it ends before it
    have hinside : v <+: List.replicate k x := by
      refine List.prefix_of_prefix_length_le hv (List.prefix_append _ behind) ?_
      rw [List.length_append] at hk
      rw [List.length_replicate]
      omega
    have hnone : v.reverse = [] := by
      refine eq_nil_of_subset_replicate (x := x) (k := k) (fun a ha => hinside.subset (List.mem_reverse.1 ha)) ?_
      intro hend
      rw [List.head?_reverse] at hend
      exact hlast (by rw [List.getLast?_append, hend, Option.some_or])
    rw [List.reverse_eq_nil_iff.1 hnone, List.append_nil]
    exact .inl hu.isInfix

end Runs

/-! ## Texts inside a JSON string -/

/-- A character that stands for itself in a JSON string. -/
def IsPlain (c : Char) : Prop := c ≠ '"' ∧ c ≠ '\\' ∧ 0x20 ≤ c.toNat

instance (c : Char) : Decidable (IsPlain c) := inferInstanceAs (Decidable (_ ∧ _))

theorem escape_of_isPlain {c : Char} (h : IsPlain c) : escape c = [c] := by
  obtain ⟨hquote, hslash, hprintable⟩ := h
  have hne (d : Char) (hd : d.toNat < 0x20) : c ≠ d := by
    rintro rfl
    omega
  simp [escape, hquote, hslash, hne '\x08' (by decide), hne '\x0c' (by decide), hne '\n' (by decide),
    hne '\r' (by decide), hne '\t' (by decide), Nat.not_lt.2 hprintable]

theorem escaped_of_isPlain {cs : List Char} (h : ∀ c ∈ cs, IsPlain c) : cs.flatMap escape = cs := by
  induction cs with
  | nil => rfl
  | cons c cs ih =>
    obtain ⟨hc, hcs⟩ := List.forall_mem_cons.1 h
    rw [List.flatMap_cons, escape_of_isPlain hc, ih hcs]
    rfl

theorem escaped_part {part whole : List Char} (h : part <:+: whole) :
    part.flatMap escape <:+: whole.flatMap escape := by
  obtain ⟨before, behind, rfl⟩ := h
  rw [List.flatMap_append, List.flatMap_append]
  exact ⟨_, _, rfl⟩

/-- The text of an item is a part of the text of the array. -/
theorem infix_commas {t : List Char} {ts : List (List Char)} (h : t ∈ ts) : t <:+: commas ts := by
  induction ts with
  | nil => cases h
  | cons u us ih =>
    rw [commas_cons]
    rcases List.mem_cons.1 h with rfl | h
    · exact (List.prefix_append _ _).isInfix
    · rw [if_neg (List.ne_nil_of_mem h)]
      exact ((ih h).trans (List.suffix_cons ',' _).isInfix).trans (List.suffix_append u _).isInfix

theorem escaped_in_array {item : String} {items : List String} (h : item ∈ items) :
    item.toList.flatMap escape <:+: (Json.strings items).write := by
  have hitem : item.toList.flatMap escape <:+: writeString item := ⟨['"'], ['"'], rfl⟩
  have hinside : writeString item <:+: commas ((items.map Json.str).map write) :=
    infix_commas (List.mem_map.2 ⟨.str item, List.mem_map_of_mem h, rfl⟩)
  rw [Json.strings, write_arr]
  exact (hitem.trans hinside).trans ⟨['['], [']'], rfl⟩

/-- A text that is found in the JSON text of every array of strings with an item of which it is a part. -/
def Findable (needle : List Char) : Prop := needle <:+: needle.flatMap escape ∨ needle = ['[', '"']

theorem findable_of_isPlain {needle : List Char} (h : ∀ c ∈ needle, IsPlain c) : Findable needle := by
  have hsame := escaped_of_isPlain h
  exact .inl ⟨[], [], by rw [hsame, List.nil_append, List.append_nil]⟩

theorem Findable.infix_write {needle : List Char} (h : Findable needle) {item : String} {items : List String}
    (hitem : item ∈ items) (hpart : needle <:+: item.toList) : needle <:+: (Json.strings items).write := by
  rcases h with h | rfl
  · exact (h.trans (escaped_part hpart)).trans (escaped_in_array hitem)
  · obtain ⟨first, more, rfl⟩ := List.exists_cons_of_ne_nil (List.ne_nil_of_mem hitem)
    rw [Json.strings, write_arr, List.map_cons, List.map_cons, commas_cons]
    exact ⟨[], _, rfl⟩

/-- A part of two characters. -/
theorem eq_of_infix_pair {α : Type} {l : List α} {a b : α} (h : l <:+: [a, b]) :
    l = [] ∨ l = [a] ∨ l = [b] ∨ l = [a, b] := by
  simp only [List.infix_cons_iff, List.infix_nil, List.prefix_cons_iff, List.prefix_nil] at h
  grind

theorem exists_isPlain (u v : Option Char) : ∃ x, IsPlain x ∧ u ≠ some x ∧ v ≠ some x := by
  by_contra hnone
  have htaken (x : Char) (hx : IsPlain x) : u = some x ∨ v = some x := by
    by_contra hfree
    exact hnone ⟨x, hx, not_or.1 hfree⟩
  have ha := htaken 'a' ⟨by decide, by decide, by decide⟩
  have hb := htaken 'b' ⟨by decide, by decide, by decide⟩
  have hc := htaken 'c' ⟨by decide, by decide, by decide⟩
  grind

/-- Every text is a part of an item in whose array it is not found, unless it is findable. -/
theorem exists_item (needle : List Char) :
    ∃ item : String, needle <:+: item.toList ∧ (needle <:+: (Json.strings [item]).write → Findable needle) := by
  obtain ⟨x, hplain, hfirst, hlast⟩ := exists_isPlain needle.head? needle.getLast?
  have hrun : (List.replicate needle.length x).flatMap escape = List.replicate needle.length x :=
    escaped_of_isPlain fun c hc => List.eq_of_mem_replicate hc ▸ hplain
  refine ⟨String.ofList (List.replicate needle.length x ++ (needle ++ List.replicate needle.length x)), ?_, ?_⟩
  · rw [String.toList_ofList]
    exact ⟨_, _, List.append_assoc _ _ _⟩
  · intro hfound
    have hwrite : (Json.strings
        [String.ofList (List.replicate needle.length x ++ (needle ++ List.replicate needle.length x))]).write =
        ['[', '"'] ++ (List.replicate needle.length x ++
          (needle.flatMap escape ++ (List.replicate needle.length x ++ ['"', ']']))) := by
      simp [Json.strings, write_arr, commas, write, writeString, List.flatMap_append, hrun]
    rw [hwrite] at hfound
    -- neither run can hold an end of the needle, so it lies in front of them, between them or behind them
    rcases occurs_before_or_behind hfirst hlast (Nat.le_refl _) hfound with hopening | hfound
    · rcases eq_of_infix_pair hopening with rfl | rfl | rfl | rfl
      · exact .inl (by decide)
      · exact .inl (by decide)
      · exact .inl (by decide)
      · exact .inr rfl
    · rcases occurs_before_or_behind hfirst hlast (Nat.le_refl _) hfound with hescaped | hclosing
      · exact .inl hescaped
      · rcases eq_of_infix_pair hclosing with rfl | rfl | rfl | rfl <;> exact .inl (by decide)

/-! ## Collections -/

namespace Node

/-- The attributes of a node that list strings. -/
def collections : List (String × (Node → List String)) :=
  [("tags", fun n => n.tags.items), ("parent_ids", fun n => n.parents), ("child_ids", fun n => n.children)]

variable {a : String × (Node → List String)}

/-- A collection is searched in the text of its array. -/
theorem meets_collection (ha : a ∈ collections) (s : Store) (n : Node) (needle : String) :
    s.meets n ⟨a.1, .contains, .text needle⟩ ↔ needle.toList <:+: (Json.strings (a.2 n)).write := by
  simp only [collections, List.mem_cons, List.not_mem_nil, or_false] at ha
  rcases ha with rfl | rfl | rfl <;> exact occursIn_iff

/-- Each collection of some node has a given item and no other. -/
theorem exists_collection (ha : a ∈ collections) (item : String) : ∃ n : Node, a.2 n = [item] := by
  simp only [collections, List.mem_cons, List.not_mem_nil, or_false] at ha
  rcases ha with rfl | rfl | rfl
  · exact ⟨{ id := "x", claimType := "claim", confidence := 1, tags := Tags.empty.insert item }, rfl⟩
  · exact ⟨{ id := "x", claimType := "claim", confidence := 1, parents := [item] }, rfl⟩
  · exact ⟨{ id := "x", claimType := "claim", confidence := 1, children := [item] }, rfl⟩

/-- A search in the tags, parents or children of a node finds every part of an item that has no quote, backslash or
control character. Of all texts, those are sure to be found in every item of which they are a part that are a part of
their own escaped form, or the opening of the array, and no others. -/
theorem collection_contains_iff (ha : a ∈ collections) (s : Store) (needle : String) :
    ((∀ c ∈ needle.toList, IsPlain c) → ∀ n : Node, ∀ item ∈ a.2 n, needle.toList <:+: item.toList →
      s.meets n ⟨a.1, .contains, .text needle⟩) ∧
    ((∀ n : Node, ∀ item ∈ a.2 n, needle.toList <:+: item.toList → s.meets n ⟨a.1, .contains, .text needle⟩) ↔
      Findable needle.toList) := by
  have hfound (h : Findable needle.toList) (n : Node) (item : String) (hitem : item ∈ a.2 n)
      (hpart : needle.toList <:+: item.toList) : s.meets n ⟨a.1, .contains, .text needle⟩ :=
    (meets_collection ha s n needle).2 (h.infix_write hitem hpart)
  refine ⟨fun hplain => hfound (findable_of_isPlain hplain), fun hall => ?_, hfound⟩
  obtain ⟨item, hpart, hfindable⟩ := exists_item needle.toList
  obtain ⟨n, hn⟩ := exists_collection ha item
  have hmeets := hall n item (by rw [hn]; exact List.mem_cons_self) hpart
  rw [meets_collection ha, hn] at hmeets
  exact hfindable hmeets

/-- A plain word in one of two tags, the other one with quotes. -/
theorem collection_contains_iff_budget :
    let n : Node := { id := "x", claimType := "claim", confidence := 1,
                      tags := (Tags.empty.insert "so-called \"plan\"").insert "annual_budget" }
    ("tags", fun n : Node => n.tags.items) ∈ collections ∧ (∀ c ∈ "budget".toList, IsPlain c) ∧
      "annual_budget" ∈ n.tags.items ∧ "budget".toList <:+: "annual_budget".toList ∧
      Store.empty.meets n ⟨"tags", .contains, .text "budget"⟩ := by
  intro n
  have htags : ("tags", fun n : Node => n.tags.items) ∈ collections := List.mem_cons_self
  have hall : "budget".toList.all fun c => decide (IsPlain c) := by decide
  have hplain : ∀ c ∈ "budget".toList, IsPlain c := fun c hc => of_decide_eq_true (List.all_eq_true.1 hall c hc)
  have hitem : "annual_budget" ∈ n.tags.items := mem_insertTag.2 (.inl rfl)
  have hpart : "budget".toList <:+: "annual_budget".toList := ⟨"annual_".toList, [], rfl⟩
  exact ⟨htags, hplain, hitem, hpart,
    (collection_contains_iff htags Store.empty "budget").1 hplain n _ hitem hpart⟩

/-- A node is not found by a tag with a quote in it. -/
theorem tag_with_quote_not_found :
    ¬ ∀ (s : Store) (n : Node), ∀ t ∈ n.tags.items, ∀ needle : String, needle.toList <:+: t.toList →
      s.meets n ⟨"tags", .contains, .text needle⟩ := by
  intro hall
  have hfound := hall Store.empty
    { id := "x", claimType := "claim", confidence := 1, tags := Tags.empty.insert "a\"b" } "a\"b"
    List.mem_cons_self "a\"b" List.infix_rfl
  have htext : ['a', '"', 'b'] <:+: ['[', '"', 'a', '\\', '"', 'b', '"', ']'] :=
    (meets_collection List.mem_cons_self Store.empty _ "a\"b").1 hfound
  exact absurd htext (by decide)

end Node

end EvidenceGraph
