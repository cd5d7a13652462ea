/-
# `EvidenceGraph.Proofs.Node.Building` — identity does not depend on the order of calls.

A node is built by a sequence of calls on a draft. What the sequence leaves is said per part: the latest call that
gives a time, an id or a hash counts (`latest`), a member of the content has its latest value (`contentAt`),
and parents are added up. The derived id reads the time and the content, the derived hash the parents in
increasing order as well. So calls that leave the same values give the same identity, in whatever order they
come and whatever else they set, and an id that is given does not get into the hash (`identity_of_calls`).
-/
import EvidenceGraph.Proofs.Json.Members
import EvidenceGraph.Proofs.Node.Identity
import EvidenceGraph.Proofs.Node.Validity

namespace EvidenceGraph.Node

/-! ## Calls -/

/-- A call on a draft. -/
inductive Call where
  | id (id : String)
  | content (content : Json.Object)
  | field (key : String) (value : Json)
  | confidence (confidence : Float)
  | timestamp (timestamp : String)
  | parent (id : String)
  | child (id : String)
  | tag (tag : String)
  | merkleHash (hash : String)

namespace Call

/-- The id that a call gives. -/
def id? : Call → Option String
  | .id given => some given
  | _ => none

/-- The time that a call gives. -/
def time? : Call → Option String
  | .timestamp given => some given
  | _ => none

/-- The Merkle hash that a call gives. -/
def merkleHash? : Call → Option String
  | .merkleHash given => some given
  | _ => none

/-- The parent that a call adds. -/
def parent? : Call → Option String
  | .parent given => some given
  | _ => none

/-- The value, or none, that a call leaves under a key of the content. -/
def member? (key : String) : Call → Option (Option Json)
  | .content given => some (given.get? key)
  | .field k value => if k = key then some (some value) else none
  | _ => none

end Call

/-- What the latest call gives that gives anything. -/
def latest {α : Type} (give : Call → Option α) (calls : List Call) : Option α := calls.reverse.findSome? give

/-- The value that calls leave under a key of the content. -/
def contentAt (key : String) (calls : List Call) : Option Json := (latest (Call.member? key) calls).getD none

/-- The parents that calls add. -/
def parentsOf (calls : List Call) : List String := calls.filterMap Call.parent?

/-- The calls that do not give an id. -/
def withoutIds (calls : List Call) : List Call := calls.filter fun c => c.id?.isNone

theorem latest_cons {α : Type} (give : Call → Option α) (c : Call) (calls : List Call) :
    latest give (c :: calls) = (latest give calls).or (give c) := by
  simp [latest, List.findSome?_append]

namespace Draft

/-- A call on a draft. -/
def call (d : Draft) : Call → Draft
  | .id id => d.withId id
  | .content content => d.withContent content
  | .field key value => d.withField key value
  | .confidence confidence => d.withConfidence confidence
  | .timestamp timestamp => d.withTimestamp timestamp
  | .parent id => d.withParent id
  | .child id => d.withChild id
  | .tag tag => d.withTag tag
  | .merkleHash hash => d.withMerkleHash hash

/-- A sequence of calls on a draft. -/
def run (d : Draft) (calls : List Call) : Draft := calls.foldl call d

/-! ## What calls leave -/

/-- A part of a draft that no call changes. -/
theorem run_keeps {α : Type} (get : Draft → α) (hcall : ∀ d c, get (call d c) = get d) (d : Draft)
    (calls : List Call) : get (d.run calls) = get d := by
  induction calls generalizing d with
  | nil => rfl
  | cons c calls ih => exact (ih (d.call c)).trans (hcall d c)

/-- A part of a draft that each call sets or keeps is as the latest call has set it. -/
theorem run_latest {α : Type} (get : Draft → α) (give : Call → Option α)
    (hcall : ∀ d c, get (call d c) = (give c).getD (get d)) (d : Draft) (calls : List Call) :
    get (d.run calls) = (latest give calls).getD (get d) := by
  induction calls generalizing d with
  | nil => rfl
  | cons c calls ih =>
    have hrest : get ((d.call c).run calls) = (latest give calls).getD (get (d.call c)) := ih (d.call c)
    rw [latest_cons, Option.getD_or, ← hcall]
    exact hrest

/-- A part of a draft that can be left open. -/
theorem run_latest_option {α : Type} (get : Draft → Option α) (give : Call → Option α)
    (hcall : ∀ d c, get (call d c) = (give c).or (get d)) (d : Draft) (calls : List Call) :
    get (d.run calls) = (latest give calls).or (get d) := by
  have hsome {o p : Option α} : (o.map some).getD p = o.or p := by cases o <;> rfl
  have hlatest : latest (fun c => (give c).map some) calls = (latest give calls).map some :=
    List.map_findSome?.symm
  rw [run_latest get (fun c => (give c).map some) (fun d c => by rw [hsome, hcall]) d calls, hlatest, hsome]

theorem run_timestamp (d : Draft) (calls : List Call) :
    (d.run calls).timestamp = (latest Call.time? calls).or d.timestamp :=
  run_latest_option timestamp Call.time? (fun _ c => by cases c <;> rfl) d calls

theorem run_id (d : Draft) (calls : List Call) : (d.run calls).id = (latest Call.id? calls).or d.id :=
  run_latest_option id Call.id? (fun _ c => by cases c <;> rfl) d calls

theorem run_merkleHash (d : Draft) (calls : List Call) :
    (d.run calls).merkleHash = (latest Call.merkleHash? calls).or d.merkleHash :=
  run_latest_option merkleHash Call.merkleHash? (fun _ c => by cases c <;> rfl) d calls

/-- A call sets one member of the content, or all of them, or keeps the content. -/
theorem call_content (key : String) (d : Draft) (c : Call) :
    (d.call c).content.get? key = (c.member? key).getD (d.content.get? key) := by
  cases c with
  | field k value =>
    simp only [call, withField, Json.Object.get?_insert, Call.member?]
    split <;> rfl
  | _ => rfl

theorem run_content (d : Draft) (calls : List Call) (key : String) :
    (d.run calls).content.get? key = (latest (Call.member? key) calls).getD (d.content.get? key) :=
  run_latest (fun d => d.content.get? key) (Call.member? key) (call_content key) d calls

theorem run_parents (d : Draft) (calls : List Call) : (d.run calls).parents = d.parents ++ parentsOf calls := by
  induction calls generalizing d with
  | nil => exact (List.append_nil _).symm
  | cons c calls ih =>
    have hrest : ((d.call c).run calls).parents = (d.call c).parents ++ parentsOf calls := ih (d.call c)
    refine hrest.trans ?_
    cases c with
    | parent given => exact List.append_assoc ..
    | _ => rfl

/-- A draft whose id is left open. -/
def withoutId (d : Draft) : Draft := { d with id := none }

/-- But for the id, the calls that give an id do nothing. -/
theorem withoutId_run (d : Draft) (calls : List Call) :
    (d.run calls).withoutId = d.withoutId.run (withoutIds calls) := by
  induction calls generalizing d with
  | nil => rfl
  | cons c calls ih =>
    have hrest : ((d.call c).run calls).withoutId = (d.call c).withoutId.run (withoutIds calls) := ih (d.call c)
    refine hrest.trans ?_
    cases c <;> rfl

/-! ## Identity -/

/-- The id of a draft that has none reads kind, content, source and time. -/
theorem complete_id_eq {d e : Draft} {now now' : String} (hd : d.id = none) (he : e.id = none)
    (hdigest : d.contentDigest (d.timestamp.getD now) = e.contentDigest (e.timestamp.getD now')) :
    (d.complete now).id = (e.complete now').id := by
  simp only [complete, hd, he, hdigest]

/-- The hash of a draft that has none reads the parents in increasing order as well. -/
theorem complete_merkleHash_eq {d e : Draft} {now now' : String} (hd : d.merkleHash = none)
    (he : e.merkleHash = none)
    (hdigest : d.contentDigest (d.timestamp.getD now) = e.contentDigest (e.timestamp.getD now'))
    (hparents : d.parents.Perm e.parents) : (d.complete now).merkleHash = (e.complete now').merkleHash := by
  simp only [complete, hd, he, hdigest, parentBytes_eq_of_perm hparents]

end Draft

/-! ## Derived ids -/

theorem length_sha256 (message : List UInt8) : (Digest.sha256 message).length = 32 := by
  simp [Digest.sha256, Digest.bigEndian]

theorem length_hex (bytes : List UInt8) : (Digest.hex bytes).toList.length = 2 * bytes.length := by
  rw [Digest.hex, String.toList_ofList, List.length_flatMap]
  simp [Nat.mul_comm]

/-- A node has an id if none was given, as a derived one has sixteen digits. -/
theorem complete_id_ne (d : Draft) (now : String) (hgiven : d.id ≠ some "") : (d.complete now).id ≠ "" := by
  cases hid : d.id with
  | some given =>
    simp only [Draft.complete, hid, Option.getD_some]
    exact fun h => hgiven (by rw [hid, h])
  | none =>
    simp only [Draft.complete, hid, Option.getD_none]
    intro h
    have hlength := congrArg (fun s => s.toList.length) h
    rw [String.toList_ofList, List.length_take, length_hex, Draft.contentDigest, length_sha256] at hlength
    cases hlength

/-- A draft is built unless an empty id was given, it has no kind, or its confidence is out of range. -/
theorem build_of_valid {d : Draft} (now : String) (hid : d.id ≠ some "") (hkind : d.claimType ≠ "")
    (hconfidence : isConfidence d.confidence) : d.build now = .ok (d.complete now) :=
  build_eq_ok_iff.2 ⟨⟨complete_id_ne d now hid, hkind, isConfidence_iff.1 hconfidence⟩, rfl⟩

/-! ## Two sequences of calls -/

/-- Calls that leave the same content and were given the same time. -/
structure SameContent (calls calls' : List Call) : Prop where
  time : ∃ t, latest Call.time? calls = some t ∧ latest Call.time? calls' = some t
  content : ∀ key, contentAt key calls = contentAt key calls'

/-- The draft that calls make of a kind and a source. -/
def drafted (claimType source : String) (calls : List Call) : Draft := Draft.run { claimType, source } calls

theorem drafted_claimType (claimType source : String) (calls : List Call) :
    (drafted claimType source calls).claimType = claimType :=
  Draft.run_keeps Draft.claimType (fun _ c => by cases c <;> rfl) _ calls

theorem drafted_source (claimType source : String) (calls : List Call) :
    (drafted claimType source calls).source = source :=
  Draft.run_keeps Draft.source (fun _ c => by cases c <;> rfl) _ calls

theorem drafted_content (claimType source : String) (calls : List Call) (key : String) :
    (drafted claimType source calls).content.get? key = contentAt key calls :=
  Draft.run_content _ calls key

theorem drafted_parents (claimType source : String) (calls : List Call) :
    (drafted claimType source calls).parents = parentsOf calls :=
  Draft.run_parents _ calls

section Calls

variable {claimType source : String} {calls calls' : List Call}

theorem SameContent.digest_eq (h : SameContent calls calls') (now now' : String) :
    (drafted claimType source calls).contentDigest ((drafted claimType source calls).timestamp.getD now) =
      (drafted claimType source calls').contentDigest ((drafted claimType source calls').timestamp.getD now') := by
  obtain ⟨t, ht, ht'⟩ := h.time
  have hcontent : (drafted claimType source calls).content = (drafted claimType source calls').content := by
    refine Json.Object.ext_of_get? fun key => ?_
    rw [drafted_content, drafted_content, h.content key]
  rw [Draft.contentDigest, Draft.contentDigest, drafted_claimType, drafted_claimType, drafted_source,
    drafted_source, hcontent, drafted, drafted, Draft.run_timestamp, Draft.run_timestamp, ht, ht']
  rfl

theorem drafted_withoutId :
    (drafted claimType source calls).withoutId = drafted claimType source (withoutIds calls) :=
  Draft.withoutId_run _ calls

/-- The identity of what is built from a kind, a source and calls. Where the calls leave the same content and were
given the same time, derived ids are the same, and so are derived hashes if the parents are the same in some order.
Ids that were given do not get into the hash. And what is built has an id, a kind and a confidence in range. -/
theorem identity_of_calls {now now' : String} {n n' : Node}
    (hn : (drafted claimType source calls).build now = .ok n)
    (hn' : (drafted claimType source calls').build now' = .ok n') :
    (SameContent calls calls' →
      (latest Call.id? calls = none → latest Call.id? calls' = none → n.id = n'.id) ∧
      (latest Call.merkleHash? calls = none → latest Call.merkleHash? calls' = none →
        (parentsOf calls).Perm (parentsOf calls') → n.merkleHash = n'.merkleHash)) ∧
    (withoutIds calls = withoutIds calls' → now = now' → n.merkleHash = n'.merkleHash) ∧
    (n.confidence.isNaN = false → n.id ≠ "" ∧ n.claimType ≠ "" ∧ 0 ≤ n.confidence ∧ n.confidence ≤ 1) := by
  obtain ⟨hvalid, rfl⟩ := build_eq_ok_iff.1 hn
  obtain ⟨-, rfl⟩ := build_eq_ok_iff.1 hn'
  refine ⟨fun hsame => ⟨fun hid hid' => ?_, fun hhash hhash' hparents => ?_⟩, fun hcalls hnow => ?_,
    fun hnumber => ⟨hvalid.id_ne, hvalid.claimType_ne, hvalid.confidence_mem hnumber⟩⟩
  · refine Draft.complete_id_eq ?_ ?_ (hsame.digest_eq now now')
    · rw [drafted, Draft.run_id, hid]
      rfl
    · rw [drafted, Draft.run_id, hid']
      rfl
  · refine Draft.complete_merkleHash_eq ?_ ?_ (hsame.digest_eq now now') ?_
    · rw [drafted, Draft.run_merkleHash, hhash]
      rfl
    · rw [drafted, Draft.run_merkleHash, hhash']
      rfl
    · rwa [drafted_parents, drafted_parents]
  · have hwithout : (drafted claimType source calls).withoutId = (drafted claimType source calls').withoutId := by
      rw [drafted_withoutId, drafted_withoutId, hcalls]
    have hhash (d : Draft) : (d.complete now').merkleHash = (d.withoutId.complete now').merkleHash := rfl
    rw [hnow, hhash, hwithout, ← hhash]

end Calls

/-- Calls in two orders, the second with a member that is set twice; and the first calls with a given id. -/
theorem identity_of_calls_reordered :
    ∃ n n' m : Node,
      (drafted "claim" "src" [.timestamp "t", .field "k" (.int 1), .parent "p", .parent "q"]).build "now" = .ok n ∧
      (drafted "claim" "src" [.parent "q", .field "k" (.int 2), .confidence 0.5, .field "k" (.int 1), .parent "p",
        .timestamp "t"]).build "later" = .ok n' ∧
      (drafted "claim" "src" [.timestamp "t", .id "x", .field "k" (.int 1), .parent "p", .parent "q"]).build "now" =
        .ok m ∧
      n.id = n'.id ∧ n.merkleHash = n'.merkleHash ∧ n.merkleHash = m.merkleHash ∧ n.id ≠ "" := by
  have hsame : SameContent [.timestamp "t", .field "k" (.int 1), .parent "p", .parent "q"]
      [.parent "q", .field "k" (.int 2), .confidence 0.5, .field "k" (.int 1), .parent "p", .timestamp "t"] := by
    refine ⟨⟨"t", rfl, rfl⟩, fun key => ?_⟩
    by_cases hkey : "k" = key <;> simp [contentAt, latest, List.findSome?, Call.member?, hkey]
  have hn : (drafted "claim" "src" [.timestamp "t", .field "k" (.int 1), .parent "p", .parent "q"]).build "now" =
      .ok _ :=
    build_of_valid "now" (by decide) (by decide) (by decide +kernel)
  have hn' : (drafted "claim" "src" [.parent "q", .field "k" (.int 2), .confidence 0.5, .field "k" (.int 1),
      .parent "p", .timestamp "t"]).build "later" = .ok _ :=
    build_of_valid "later" (by decide) (by decide) (by decide +kernel)
  have hm : (drafted "claim" "src" [.timestamp "t", .id "x", .field "k" (.int 1), .parent "p",
      .parent "q"]).build "now" = .ok _ :=
    build_of_valid "now" (by decide) (by decide) (by decide +kernel)
  obtain ⟨hid, hhash⟩ := (identity_of_calls hn hn').1 hsame
  obtain ⟨-, hgiven, hchecked⟩ := identity_of_calls hn hm
  exact ⟨_, _, _, hn, hn', hm, hid rfl rfl, hhash rfl rfl (List.Perm.swap _ _ _), hgiven rfl rfl,
    (hchecked (by decide +kernel)).1⟩

end EvidenceGraph.Node
