/-
Where nodes stand in a tree.

Two nodes of a tree may look the same, so a node is told from the others by its place: which child
is taken at each node on the way down to it.  Here the nodes below a node are listed with their
places and with the nodes around them, each node before those below it and these before its later
siblings.  The listing goes by the order of the places, so no place is in it twice, and the nodes
below one of the listed nodes are a part of the listing that is the listing of that node.

Main definitions:
* `Site` — a node, its place and the nodes around it;
* `Node.sites` — the nodes below a node;
* `Node.Leads` — a place leads from a node to another one.

Main results:
* `Node.forest_induction` — what holds of lists of nodes, by going down and along;
* `Node.sites_sorted` — **the nodes are listed in the order of their places**;
* `Node.mem_sites_iff` — every place that leads somewhere is listed;
* `Node.filter_below`, `Node.filter_children` — the nodes below a listed one, and its children.
-/
import Cohesion.Java.Node
import Mathlib.Data.List.Lex
import Mathlib.Data.List.Nodup

set_option autoImplicit false

namespace Cohesion.Java

/-- What holds of no nodes, and of a list if it holds of the children of its first node and of its
other nodes, holds of every list. -/
@[elab_as_elim]
theorem Node.forest_induction {motive : List Node → Prop} (nil : motive [])
    (cons : ∀ n rest, motive n.children → motive rest → motive (n :: rest)) :
    (ns : List Node) → motive ns
  | [] => nil
  | ⟨role, kind, text, startLine, endLine, children⟩ :: rest =>
    cons ⟨role, kind, text, startLine, endLine, children⟩ rest
      (forest_induction nil cons children) (forest_induction nil cons rest)

/-! ### Sites -/

/-- A node below another one. -/
structure Site where
  /-- Which child is taken at each node on the way down. -/
  place : List Nat
  /-- The nodes around it, from the outside in. -/
  around : List Node
  /-- The node. -/
  node : Node
  deriving Repr

/-- A node in a list. -/
def Site.at (i : Nat) (n : Node) : Site := ⟨[i], [], n⟩

/-- A node below a node that itself stands somewhere. -/
def Site.below (s u : Site) : Site := ⟨s.place ++ u.place, s.around ++ s.node :: u.around, u.node⟩

mutual

/-- The nodes below a node, each before those below it. -/
def Node.sites : Node → List Site
  | ⟨_, _, _, _, _, children⟩ => sitesFrom 0 children

/-- The nodes of a list whose first node has a number, and the nodes below them. -/
def sitesFrom (i : Nat) : List Node → List Site
  | [] => []
  | n :: rest => Site.at i n :: (n.sites.map (Site.at i n).below ++ sitesFrom (i + 1) rest)

end

theorem Node.sites_eq (n : Node) : n.sites = sitesFrom 0 n.children := by
  cases n
  rw [sites]

theorem sitesFrom_cons (i : Nat) (n : Node) (rest : List Node) :
    sitesFrom i (n :: rest) =
      Site.at i n :: (n.sites.map (Site.at i n).below ++ sitesFrom (i + 1) rest) := by
  rw [sitesFrom]

namespace Site

theorem below_below (s u v : Site) : (s.below u).below v = s.below (u.below v) := by
  simp [below]

@[simp]
theorem place_at (i : Nat) (n : Node) : (Site.at i n).place = [i] := rfl

@[simp]
theorem node_at (i : Nat) (n : Node) : (Site.at i n).node = n := rfl

@[simp]
theorem around_at (i : Nat) (n : Node) : (Site.at i n).around = [] := rfl

@[simp]
theorem node_below (s u : Site) : (s.below u).node = u.node := rfl

@[simp]
theorem place_below (s u : Site) : (s.below u).place = s.place ++ u.place := rfl

@[simp]
theorem around_below (s u : Site) : (s.below u).around = s.around ++ s.node :: u.around := rfl

end Site

/-- What holds of all listed nodes holds of the first one, of those below it, and of the others. -/
theorem forall_sitesFrom_cons {P : Site → Prop} {i : Nat} {n : Node} {rest : List Node} :
    (∀ s ∈ sitesFrom i (n :: rest), P s) ↔
      P (.at i n) ∧ (∀ u ∈ n.sites, P ((Site.at i n).below u)) ∧
        ∀ s ∈ sitesFrom (i + 1) rest, P s := by
  rw [sitesFrom_cons]
  simp only [List.mem_cons, List.mem_append, List.mem_map]
  constructor
  · intro h
    exact ⟨h _ (Or.inl rfl), fun u hu => h _ (Or.inr (Or.inl ⟨u, hu, rfl⟩)),
      fun s hs => h s (Or.inr (Or.inr hs))⟩
  · rintro ⟨hfirst, hbelow, hrest⟩ s (rfl | ⟨u, hu, rfl⟩ | hs)
    · exact hfirst
    · exact hbelow u hu
    · exact hrest s hs

/-! ### Order -/

/-- A place in a list starts with the number of one of its nodes. -/
theorem exists_place_eq (ns : List Node) (i : Nat) :
    ∀ s ∈ sitesFrom i ns, ∃ k p, s.place = k :: p ∧ i ≤ k := by
  induction ns generalizing i with
  | nil => simp [sitesFrom]
  | cons n rest ih =>
      refine forall_sitesFrom_cons.2
        ⟨⟨i, [], rfl, le_rfl⟩, fun u _ => ⟨i, u.place, rfl, le_rfl⟩, ?_⟩
      intro s hs
      obtain ⟨k, p, hplace, hk⟩ := ih (i + 1) s hs
      exact ⟨k, p, hplace, by omega⟩

theorem place_ne_nil {n : Node} {s : Site} (hs : s ∈ n.sites) : s.place ≠ [] := by
  rw [Node.sites_eq] at hs
  obtain ⟨k, p, hplace, -⟩ := exists_place_eq n.children 0 s hs
  rw [hplace]
  exact List.cons_ne_nil k p

theorem sitesFrom_sorted (ns : List Node) (i : Nat) :
    (sitesFrom i ns).Pairwise fun s t => s.place < t.place := by
  induction ns using Node.forest_induction generalizing i with
  | nil => simp [sitesFrom]
  | cons n rest ihn ihrest =>
      have hinside : n.sites.Pairwise fun s t => s.place < t.place := by
        rw [n.sites_eq]
        exact ihn 0
      -- later siblings have greater numbers
      have hlater : ∀ p, ∀ t ∈ sitesFrom (i + 1) rest, i :: p < t.place := by
        intro p t ht
        obtain ⟨k, q, hplace, hk⟩ := exists_place_eq rest (i + 1) t ht
        rw [hplace]
        exact List.cons_lt_cons_iff.2 (Or.inl (by omega))
      rw [sitesFrom_cons, List.pairwise_cons, List.pairwise_append, List.pairwise_map]
      refine ⟨?_, hinside.imp ?_, ihrest (i + 1), ?_⟩
      · intro t ht
        rcases List.mem_append.1 ht with ht | ht
        · obtain ⟨u, hu, rfl⟩ := List.mem_map.1 ht
          obtain ⟨k, p, hplace⟩ := List.exists_cons_of_ne_nil (place_ne_nil hu)
          rw [Site.place_below, Site.place_at, hplace]
          exact List.cons_lt_cons_iff.2 (Or.inr ⟨rfl, List.nil_lt_cons k p⟩)
        · exact hlater [] t ht
      · intro s t hst
        exact List.cons_lt_cons_iff.2 (Or.inr ⟨rfl, hst⟩)
      · intro s hs t ht
        obtain ⟨u, -, rfl⟩ := List.mem_map.1 hs
        exact hlater u.place t ht

namespace Node

/-- **The nodes are listed in the order of their places.** -/
theorem sites_sorted (n : Node) : n.sites.Pairwise fun s t => s.place < t.place := by
  rw [n.sites_eq]
  exact sitesFrom_sorted n.children 0

/-- No place is listed twice. -/
theorem nodup_places (n : Node) : (n.sites.map (·.place)).Nodup :=
  List.pairwise_map.2 (n.sites_sorted.imp ne_of_lt)

theorem eq_of_place_eq {n : Node} {s t : Site} (hs : s ∈ n.sites) (ht : t ∈ n.sites)
    (h : s.place = t.place) : s = t :=
  List.inj_on_of_nodup_map n.nodup_places hs ht h

/-! ### Places that lead somewhere -/

/-- A place leads from a node to another one, past the nodes around that. -/
inductive Leads : Node → Site → Prop where
  /-- To a child. -/
  | child {n c : Node} {i : Nat} : n.children[i]? = some c → Leads n (.at i c)
  /-- Further down from a child. -/
  | further {n c : Node} {i : Nat} {u : Site} :
      n.children[i]? = some c → Leads c u → Leads n ((Site.at i c).below u)

end Node

theorem mem_sitesFrom_iff {ns : List Node} {i : Nat} {s : Site} :
    s ∈ sitesFrom i ns ↔ ∃ k c, ns[k]? = some c ∧
      (s = .at (i + k) c ∨ ∃ u ∈ c.sites, s = (Site.at (i + k) c).below u) := by
  induction ns generalizing i with
  | nil => simp [sitesFrom]
  | cons n rest ih =>
      rw [sitesFrom_cons, List.mem_cons, List.mem_append, List.mem_map, ih]
      constructor
      · rintro (rfl | ⟨u, hu, rfl⟩ | ⟨k, c, hc, hs⟩)
        · exact ⟨0, n, rfl, Or.inl rfl⟩
        · exact ⟨0, n, rfl, Or.inr ⟨u, hu, rfl⟩⟩
        · rw [Nat.add_assoc, Nat.add_comm 1 k] at hs
          exact ⟨k + 1, c, hc, hs⟩
      · rintro ⟨k, c, hc, hs⟩
        cases k with
        | zero =>
            cases hc
            rcases hs with rfl | ⟨u, hu, rfl⟩
            · exact Or.inl rfl
            · exact Or.inr (Or.inl ⟨u, hu, rfl⟩)
        | succ k =>
            rw [Nat.add_comm k 1, ← Nat.add_assoc] at hs
            exact Or.inr (Or.inr ⟨k, c, hc, hs⟩)

namespace Node

/-- A listed node is a child, or it is listed below a child. -/
theorem mem_sites_iff_child {n : Node} {s : Site} :
    s ∈ n.sites ↔ ∃ k c, n.children[k]? = some c ∧
      (s = .at k c ∨ ∃ u ∈ c.sites, s = (Site.at k c).below u) := by
  rw [n.sites_eq, mem_sitesFrom_iff]
  simp only [Nat.zero_add]

/-- **Every place that leads somewhere is listed**, and no other one. -/
theorem mem_sites_iff {n : Node} {s : Site} : s ∈ n.sites ↔ n.Leads s := by
  constructor
  · -- by induction on the way down, whose length is that of the place
    intro hs
    generalize hlength : s.place.length = length
    induction length generalizing n s with
    | zero => exact absurd (List.length_eq_zero_iff.1 hlength) (place_ne_nil hs)
    | succ length ih =>
        obtain ⟨k, c, hc, rfl | ⟨u, hu, rfl⟩⟩ := mem_sites_iff_child.1 hs
        · exact .child hc
        · refine .further hc (ih hu ?_)
          simpa using hlength
  · intro h
    induction h with
    | child hc => exact mem_sites_iff_child.2 ⟨_, _, hc, Or.inl rfl⟩
    | further hc _ ih => exact mem_sites_iff_child.2 ⟨_, _, hc, Or.inr ⟨_, ih, rfl⟩⟩

/-- What is listed below a listed node is listed. -/
theorem below_mem {n : Node} {s u : Site} (hs : s ∈ n.sites) (hu : u ∈ s.node.sites) :
    s.below u ∈ n.sites := by
  rw [mem_sites_iff] at hs
  induction hs with
  | child hc => exact mem_sites_iff_child.2 ⟨_, _, hc, Or.inr ⟨u, hu, rfl⟩⟩
  | further hc _ ih =>
      rw [Site.below_below]
      exact mem_sites_iff_child.2 ⟨_, _, hc, Or.inr ⟨_, ih hu, rfl⟩⟩

end Node

/-! ### Parts of the listing -/

/-- A node stands below another one: its place goes on from that one. -/
def Site.isBelow (t s : Site) : Bool := s.place.isPrefixOf t.place && t.place != s.place

theorem Site.isBelow_iff {t s : Site} :
    t.isBelow s = true ↔ s.place <+: t.place ∧ t.place ≠ s.place := by
  rw [isBelow, Bool.and_eq_true, List.isPrefixOf_iff_prefix, bne_iff_ne]

theorem Site.isBelow_below (s u v : Site) : (s.below u).isBelow (s.below v) = u.isBelow v := by
  rw [Bool.eq_iff_iff, isBelow_iff, isBelow_iff]
  simp

/-- Nodes below different nodes of a list do not stand below each other. -/
theorem Site.isBelow_eq_false {t s : Site} {k l : Nat} {p q : List Nat} (ht : t.place = k :: p)
    (hs : s.place = l :: q) (hne : k ≠ l) : t.isBelow s = false := by
  refine Bool.eq_false_iff.2 fun h => hne ?_
  have hfront := (isBelow_iff.1 h).1
  rw [ht, hs, List.cons_prefix_cons] at hfront
  exact hfront.1.symm

theorem filter_sitesFrom_below (ns : List Node) (i : Nat) :
    ∀ s ∈ sitesFrom i ns,
      (sitesFrom i ns).filter (·.isBelow s) = s.node.sites.map s.below := by
  induction ns using Node.forest_induction generalizing i with
  | nil => simp [sitesFrom]
  | cons n rest ihn ihrest =>
      have hlater : ∀ s : Site, ∀ p, s.place = i :: p →
          (sitesFrom (i + 1) rest).filter (·.isBelow s) = [] := by
        intro s p hs
        refine List.filter_eq_nil_iff.2 fun t ht => ?_
        obtain ⟨k, q, hplace, hk⟩ := exists_place_eq rest (i + 1) t ht
        rw [Site.isBelow_eq_false hplace hs (by omega)]
        exact Bool.false_ne_true
      have hself : (Site.at i n).isBelow (.at i n) = false := by simp [Site.isBelow]
      refine forall_sitesFrom_cons.2 ⟨?_, fun u hu => ?_, fun s hs => ?_⟩
      · have hinside : n.sites.filter ((·.isBelow (.at i n)) ∘ (Site.at i n).below) = n.sites := by
          refine List.filter_eq_self.2 fun u hu => ?_
          simp [Site.isBelow_iff, place_ne_nil hu]
        rw [sitesFrom_cons, List.filter_cons_of_neg (by simp [hself]), List.filter_append,
          hlater _ [] rfl, List.append_nil, List.filter_map, hinside]
        rfl
      · have hfirst : (Site.at i n).isBelow ((Site.at i n).below u) = false := by
          refine Bool.eq_false_iff.2 fun h => place_ne_nil hu ?_
          simpa using (Site.isBelow_iff.1 h).1
        have hinside : n.sites.filter (·.isBelow u) = u.node.sites.map u.below := by
          rw [n.sites_eq] at hu ⊢
          exact ihn 0 u hu
        rw [sitesFrom_cons, List.filter_cons_of_neg (by simp [hfirst]), List.filter_append,
          hlater _ u.place rfl, List.append_nil, List.filter_map]
        have hshift : ((·.isBelow ((Site.at i n).below u)) ∘ (Site.at i n).below) =
            (·.isBelow u) :=
          funext fun v => Site.isBelow_below (.at i n) v u
        rw [hshift, hinside, List.map_map]
        exact List.map_congr_left fun v _ => (Site.below_below (.at i n) u v).symm
      · obtain ⟨k, p, hplace, hk⟩ := exists_place_eq rest (i + 1) s hs
        have hearlier : ∀ t : Site, ∀ q, t.place = i :: q → t.isBelow s = false :=
          fun t q ht => Site.isBelow_eq_false ht hplace (by omega)
        rw [sitesFrom_cons, List.filter_cons_of_neg (by simp [hearlier (.at i n) [] rfl]),
          List.filter_append, ihrest (i + 1) s hs, List.filter_eq_nil_iff.2, List.nil_append]
        intro t ht
        obtain ⟨u, -, rfl⟩ := List.mem_map.1 ht
        rw [hearlier _ u.place rfl]
        exact Bool.false_ne_true

namespace Node

/-- The listed nodes below a listed one are those that are listed for it. -/
theorem filter_below {n : Node} {s : Site} (hs : s ∈ n.sites) :
    n.sites.filter (·.isBelow s) = s.node.sites.map s.below := by
  rw [n.sites_eq] at hs ⊢
  exact filter_sitesFrom_below n.children 0 s hs

/-- A node whose place goes on from another one is that one or stands below it. -/
theorem eq_or_below {n : Node} {s t : Site} (hs : s ∈ n.sites) (ht : t ∈ n.sites)
    (hfront : s.place <+: t.place) : t = s ∨ ∃ u ∈ s.node.sites, t = s.below u := by
  by_cases hplace : t.place = s.place
  · exact Or.inl (eq_of_place_eq ht hs hplace)
  · have hmem : t ∈ n.sites.filter (·.isBelow s) :=
      List.mem_filter.2 ⟨ht, Site.isBelow_iff.2 ⟨hfront, hplace⟩⟩
    rw [filter_below hs] at hmem
    obtain ⟨u, hu, rfl⟩ := List.mem_map.1 hmem
    exact Or.inr ⟨u, hu, rfl⟩

end Node

/-- A node stands directly below a place. -/
def Site.isChildAt (t : Site) (place : List Nat) : Bool := t.place.dropLast == place

namespace Node

theorem filter_sitesFrom_children (ns : List Node) (i : Nat) :
    ((sitesFrom i ns).filter (·.isChildAt [])).map (·.node) = ns := by
  induction ns generalizing i with
  | nil => rfl
  | cons n rest ih =>
      have hinside : ∀ u ∈ n.sites, ((Site.at i n).below u).isChildAt [] = false := by
        intro u hu
        obtain ⟨k, p, hplace⟩ := List.exists_cons_of_ne_nil (place_ne_nil hu)
        simp [Site.isChildAt, hplace]
      rw [sitesFrom_cons, List.filter_cons_of_pos (by rfl), List.filter_append, List.filter_map,
        List.filter_eq_nil_iff.2, List.map_nil, List.nil_append, List.map_cons, ih]
      · rfl
      · intro u hu
        simpa using hinside u hu

/-- The nodes directly below the place of a listed node are its children. -/
theorem filter_children {n : Node} {s : Site} (hs : s ∈ n.sites) :
    (n.sites.filter (·.isChildAt s.place)).map (·.node) = s.node.children := by
  have hbelow : ∀ t ∈ n.sites, t.isChildAt s.place = true → t.isBelow s = true := by
    intro t ht hchild
    have hdrop : t.place.dropLast = s.place := eq_of_beq hchild
    have hlast := List.dropLast_append_getLast (place_ne_nil ht)
    rw [hdrop] at hlast
    rw [Site.isBelow_iff, ← hlast]
    simp
  have hfilter : n.sites.filter (·.isChildAt s.place) =
      (n.sites.filter (·.isBelow s)).filter (·.isChildAt s.place) := by
    rw [List.filter_filter]
    refine List.filter_congr fun t ht => ?_
    cases hchild : t.isChildAt s.place with
    | false => rfl
    | true => rw [hbelow t ht hchild, Bool.and_self]
  have hshift : s.node.sites.filter ((·.isChildAt s.place) ∘ s.below) =
      s.node.sites.filter (·.isChildAt []) := by
    refine List.filter_congr fun u hu => ?_
    rw [Function.comp_apply, Site.isChildAt, Site.isChildAt, Site.place_below,
      List.dropLast_append_of_ne_nil (place_ne_nil hu), Bool.eq_iff_iff]
    simp
  rw [hfilter, filter_below hs, List.filter_map, List.map_map, hshift, s.node.sites_eq]
  exact filter_sitesFrom_children s.node.children 0

end Node

end Cohesion.Java
