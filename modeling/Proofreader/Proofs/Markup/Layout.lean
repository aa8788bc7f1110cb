import Proofreader.Markup.Library
import Proofreader.Proofs.Document.Tree
import Proofreader.Proofs.Text.Basic

/-! How the nodes of a document lie in their files. The nodes that reading leaves between two offsets of a file
follow each other and none is empty, children begin where their parent does, and the children of an inclusion lie in a
file that is not being read already. -/

namespace Proofreader.Markup

/-- Kinds of nodes that files and blocks are made of. -/
def isBlockLevel : Kind → Bool
  | .heading | .listItem | .paragraph => true
  | kind => standsAlone kind

def BlockLevel (ns : List Node) : Prop := ∀ n ∈ ns, isBlockLevel n.kind = true

/-- The node has a place in `file`, whose text is `text`, and is rendered from there. Only citations are copied with
escapes and line ends. -/
structure ReadFrom (file : FileId) (text : Text) (n : Node) : Prop where
  file : n.location.file = file
  valid : n.location.Valid
  verbatim : n.verbatim = true → n.text = text.extract n.location.start n.location.stop
  plain : n.verbatim = true → n.kind = .citation ∨ ∀ c ∈ ['\\', '\n'], c ∉ n.text
  blocks : n.kind = .block ∨ n.kind = .inclusion → BlockLevel n.children

/-- The files that includes lead to from the main file. -/
inductive Library.Leads (lib : Library) (main : FileId) : FileId → Prop
  | main : Leads lib main main
  | resolve {file : FileId} (path : Text) : Leads lib main file → Leads lib main (lib.resolve file path)

/-- Nodes of `file` in order, from one offset up to another. `visits` are the files that they include, in the order in
which these are loaded from the library; `chain` are the files that `file` is included from. -/
inductive Laid (lib : Library) : (visits : List FileId) →
    (chain : List FileId) → (file : FileId) → Text → Nat → List Node → Nat → Prop
  | nil {chain : List FileId} {file : FileId} {text : Text} {a b : Nat} : a ≤ b → Laid lib [] chain file text a [] b
  | own {inner later chain : List FileId} {file : FileId} {text : Text} {a m b : Nat} {n : Node} {r : List Node} :
      ReadFrom file text n → n.location.start < n.location.stop → a ≤ n.location.start → n.location.stop ≤ m →
      Laid lib inner chain file text n.location.start n.children m → Laid lib later chain file text m r b →
      Laid lib (inner ++ later) chain file text a (n :: r) b
  | inclusion {inner later chain : List FileId} {file f : FileId} {text t : Text} {a m b : Nat} {n : Node}
      {r : List Node} :
      ReadFrom file text n → n.location.start < n.location.stop → n.kind = .inclusion → a ≤ n.location.start →
      n.location.stop ≤ m → (∃ path, f = lib.resolve file path) → f ∉ file :: chain → lib.load f = some t →
      Laid lib inner (file :: chain) f t 0 n.children t.length → Laid lib later chain file text m r b →
      Laid lib (f :: inner ++ later) chain file text a (n :: r) b

namespace Laid

variable {lib : Library} {visits later chain : List FileId} {file : FileId} {text : Text}
variable {a b c : Nat} {n : Node} {ns ms : List Node}

theorem le (h : Laid lib visits chain file text a ns b) : a ≤ b := by
  induction h with
  | nil hab => exact hab
  | own => omega
  | inclusion => omega

theorem lt (h : Laid lib visits chain file text a ns b) (hns : ns ≠ []) : a < b := by
  cases h with
  | nil => exact absurd rfl hns
  | own _ hlt ha hm _ hr =>
    have := hr.le
    omega
  | inclusion _ hlt _ ha hm _ _ _ _ hr =>
    have := hr.le
    omega

theorem single (hn : ReadFrom file text n) (hlt : n.location.start < n.location.stop) (ha : a ≤ n.location.start)
    (hb : n.location.stop ≤ b) (hc : Laid lib visits chain file text n.location.start n.children b) :
    Laid lib visits chain file text a [n] b := by
  rw [← List.append_nil visits]
  exact .own hn hlt ha hb hc (.nil (Nat.le_refl b))

/-- The bounds may be further out. -/
theorem widen (h : Laid lib visits chain file text a ns b) {x y : Nat} (hx : x ≤ a) (hy : b ≤ y) :
    Laid lib visits chain file text x ns y := by
  induction ns generalizing visits a x with
  | nil =>
    have := h.le
    cases h
    exact .nil (by omega)
  | cons n r ih =>
    cases h with
    | own hn hlt ha hm hc hr => exact .own hn hlt (Nat.le_trans hx ha) hm hc (ih hr (Nat.le_refl _))
    | inclusion hn hlt hk ha hm hp hf hl hc hr =>
      exact .inclusion hn hlt hk (Nat.le_trans hx ha) hm hp hf hl hc (ih hr (Nat.le_refl _))

theorem append (h : Laid lib visits chain file text a ns b) (k : Laid lib later chain file text b ms c) :
    Laid lib (visits ++ later) chain file text a (ns ++ ms) c := by
  induction ns generalizing visits a with
  | nil =>
    have := h.le
    cases h
    exact k.widen this (Nat.le_refl c)
  | cons n r ih =>
    cases h with
    | own hn hlt ha hm hc hr =>
      rw [List.append_assoc]
      exact .own hn hlt ha hm hc (ih hr)
    | inclusion hn hlt hk ha hm hp hf hl hc hr =>
      rw [List.append_assoc]
      exact .inclusion hn hlt hk ha hm hp hf hl hc (ih hr)

/-- What stands behind the first node. -/
theorem tail (h : Laid lib visits chain file text a (n :: ns) b) :
    ∃ later, later.Sublist visits ∧ Laid lib later chain file text a ns b := by
  cases h with
  | own _ hlt ha hm _ hr => exact ⟨_, List.sublist_append_right _ _, hr.widen (by omega) (Nat.le_refl b)⟩
  | inclusion _ hlt _ ha hm _ _ _ _ hr => exact ⟨_, List.sublist_append_right _ _, hr.widen (by omega) (Nat.le_refl b)⟩

theorem behind (h : Laid lib visits chain file text a (n :: ns) b) :
    ∃ later, Laid lib later chain file text n.location.stop ns b := by
  cases h with
  | own _ _ _ hm _ hr => exact ⟨_, hr.widen hm (Nat.le_refl b)⟩
  | inclusion _ _ _ _ hm _ _ _ _ hr => exact ⟨_, hr.widen hm (Nat.le_refl b)⟩

/-- Nodes may be left out, and with them what they include. -/
theorem sublist (h : Laid lib visits chain file text a ns b) (hs : ms.Sublist ns) :
    ∃ fewer, fewer.Sublist visits ∧ Laid lib fewer chain file text a ms b := by
  induction hs generalizing visits a with
  | slnil => exact ⟨visits, .refl visits, h⟩
  | cons n _ ih =>
    obtain ⟨later, hlater, hr⟩ := h.tail
    obtain ⟨fewer, hfewer, hm⟩ := ih hr
    exact ⟨fewer, hfewer.trans hlater, hm⟩
  | cons_cons n _ ih =>
    cases h with
    | own hn hlt ha hm hc hr =>
      obtain ⟨fewer, hfewer, hr⟩ := ih hr
      exact ⟨_, hfewer.append_left _, .own hn hlt ha hm hc hr⟩
    | inclusion hn hlt hk ha hm hp hf hl hc hr =>
      obtain ⟨fewer, hfewer, hr⟩ := ih hr
      exact ⟨_, hfewer.append_left _, .inclusion hn hlt hk ha hm hp hf hl hc hr⟩

theorem isSome_load (h : Laid lib visits chain file text a ns b) : ∀ f ∈ visits, (lib.load f).isSome = true := by
  induction h with
  | nil => exact nofun
  | own _ _ _ _ _ _ ihc ihr =>
    intro g hg
    exact (List.mem_append.1 hg).elim (ihc g) (ihr g)
  | inclusion _ _ _ _ _ _ _ hl _ _ ihc ihr =>
    intro g hg
    rcases List.mem_append.1 hg with hg | hg
    · rcases List.mem_cons.1 hg with rfl | hg
      · rw [hl]
        rfl
      · exact ihc g hg
    · exact ihr g hg

/-- Every node below stands in the file or in one that was visited, inside the text that was loaded. -/
theorem exists_readFrom (h : Laid lib visits chain file text a ns b) (hb : b ≤ text.length)
    {main : FileId} (hlead : lib.Leads main file) (hload : lib.load file = some text) {m : Node}
    (hm : m ∈ Node.preorders ns) :
    ∃ f t, lib.Leads main f ∧ lib.load f = some t ∧ f ∈ file :: visits ∧ ReadFrom f t m ∧ m.location.stop ≤ t.length := by
  induction h with
  | nil => simp [Node.preorders] at hm
  | @own inner later chain file text a c b n r hn _ _ hstop hc hr ihc ihr =>
    have hcb := hr.le
    rw [Node.preorders, Node.preorder_eq, ← Node.preorders_eq, List.cons_append, List.mem_cons, List.mem_append] at hm
    rcases hm with rfl | hm | hm
    · exact ⟨file, text, hlead, hload, List.mem_cons_self, hn, by omega⟩
    · obtain ⟨f, t, hf, ht, hmem, hread⟩ := ihc (by omega) hlead hload hm
      exact ⟨f, t, hf, ht, List.cons_subset_cons _ (List.subset_append_left _ _) hmem, hread⟩
    · obtain ⟨f, t, hf, ht, hmem, hread⟩ := ihr hb hlead hload hm
      exact ⟨f, t, hf, ht, List.cons_subset_cons _ (List.subset_append_right _ _) hmem, hread⟩
  | @inclusion inner later chain file f text t a c b n r hn _ _ _ hstop hp _ hl hc hr ihc ihr =>
    have hcb := hr.le
    rw [Node.preorders, Node.preorder_eq, ← Node.preorders_eq, List.cons_append, List.mem_cons, List.mem_append] at hm
    rcases hm with rfl | hm | hm
    · exact ⟨file, text, hlead, hload, List.mem_cons_self, hn, by omega⟩
    · obtain ⟨path, rfl⟩ := hp
      obtain ⟨g, u, hg, hu, hmem, hread⟩ := ihc (Nat.le_refl _) (hlead.resolve path) hl hm
      exact ⟨g, u, hg, hu, List.mem_cons_of_mem _ (List.mem_append_left _ hmem), hread⟩
    · obtain ⟨g, u, hg, hu, hmem, hread⟩ := ihr hb hlead hload hm
      exact ⟨g, u, hg, hu, List.cons_subset_cons _ (List.subset_append_right _ _) hmem, hread⟩

/-- A node lies between the bounds, or in a file that is included. -/
theorem mem_cases (h : Laid lib visits chain file text a ns b) {m : Node} (hm : m ∈ Node.preorders ns) :
    (m.location.file = file ∧ a ≤ m.location.start ∧ m.location.stop ≤ b) ∨
      (m.location.file ∈ visits ∧ m.location.file ∉ file :: chain) := by
  induction h with
  | nil => simp [Node.preorders] at hm
  | own hn _ ha hstop hc hr ihc ihr =>
    have hcb := hr.le
    have hac := hc.le
    rw [Node.preorders, Node.preorder_eq, ← Node.preorders_eq, List.cons_append, List.mem_cons, List.mem_append] at hm
    rcases hm with rfl | hm | hm
    · exact Or.inl ⟨hn.file, ha, by omega⟩
    · obtain ⟨hf, hl, hu⟩ | ⟨hv, hf⟩ := ihc hm
      · exact Or.inl ⟨hf, by omega, by omega⟩
      · exact Or.inr ⟨List.mem_append_left _ hv, hf⟩
    · obtain ⟨hf, hl, hu⟩ | ⟨hv, hf⟩ := ihr hm
      · exact Or.inl ⟨hf, by omega, hu⟩
      · exact Or.inr ⟨List.mem_append_right _ hv, hf⟩
  | @inclusion inner later chain file f text t a c b n r hn _ _ ha hstop _ hf _ _ hr ihc ihr =>
    have hcb := hr.le
    rw [Node.preorders, Node.preorder_eq, ← Node.preorders_eq, List.cons_append, List.mem_cons, List.mem_append] at hm
    rcases hm with rfl | hm | hm
    · exact Or.inl ⟨hn.file, ha, by omega⟩
    · right
      obtain ⟨he, -⟩ | ⟨hv, hout⟩ := ihc hm
      · rw [he]
        exact ⟨by simp, hf⟩
      · exact ⟨by simp [hv], fun hin => hout (List.mem_cons_of_mem _ hin)⟩
    · obtain ⟨hf, hl, hu⟩ | ⟨hv, hout⟩ := ihr hm
      · exact Or.inl ⟨hf, by omega, hu⟩
      · exact Or.inr ⟨by simp [hv], hout⟩

/-- In its file nothing begins before the end of a node but what is below it. -/
theorem mem_preorder_of_lt (h : Laid lib visits chain file text a (n :: ns) b) {m : Node} (hm : m ∈ Node.preorders (n :: ns))
    (hfile : m.location.file = file) (hlt : m.location.start < n.location.stop) : m ∈ n.preorder := by
  obtain ⟨later, hbehind⟩ := h.behind
  rw [Node.preorders, List.mem_append] at hm
  refine hm.resolve_right fun hm => ?_
  obtain ⟨-, hstart, -⟩ | ⟨-, hout⟩ := hbehind.mem_cases hm
  · omega
  · exact hout (hfile ▸ List.mem_cons_self)

end Laid

end Proofreader.Markup
