/-
Which invocations of a source are counted.

An invocation is counted if it stands in the body of a method of a class that becomes a unit, with
no class declared between the body and it: then it is in exactly one method of one unit, once.  An
anonymous class and a function literal are no classes in this sense.  An invocation in the initial
value of a field, in a constructor, in a local class or in a type that is no class is left out.

Main definitions:
* `Site.isIn`, `Node.callsIn` — what stands in the body of a method, and the invocations there;
* `Node.seenIn` — the nodes of a body that a method looks at;
* `CallSite`, `Node.callSites` — the invocations that are counted, with their units and methods;
* `Node.Spanned` — trees whose nodes stand in the lines of their parents, one after the other;
* `CountsCalls` — the invocations of the units of a tree.

Main results:
* `Node.bodyScope_eq` — the nodes that a method looks at are those outside of classes;
* `Node.invocations_method` — the invocations of a method are those that stand in its body;
* `Node.eq_of_isIn` — **no invocation stands in the bodies of two methods that count**;
* `Node.Spanned.lines_sorted` — the lines go up in the order of the tree;
* `programUnits_countsCalls` — **an invocation is counted once if it stands in the body of a method
  of a unit, and not at all otherwise**.
-/
import Cohesion.Proofs.Java.Extraction
import Cohesion.Resolution.Basic

set_option autoImplicit false

namespace Cohesion.Java

/-! ### Invocations in methods -/

/-- A node stands in the body of another one, and no class is declared between the body and it. -/
def Site.isIn (t m : Site) : Bool :=
  m.bodyPlace?.any fun b => b.isPrefixOf t.place && t.place != b &&
    (t.around.drop b.length).all (·.kind != .classDeclaration)

/-- The invocations in the body of a method, in the order of the tree. -/
def Node.callsIn (program : Node) (m : Site) : List Site :=
  program.sites.filter fun t => t.node.kind == .methodInvocation && t.isIn m

/-- The nodes in the body of a method at which it looks, in the order of the tree: those that are no
classes and in no class that is declared in the body. -/
def Node.seenIn (program : Node) (m : Site) : List Site :=
  program.sites.filter fun t => t.isIn m && t.node.kind != .classDeclaration

/-- An invocation with the unit and the method in which it is counted. -/
structure CallSite where
  /-- The class that becomes the unit. -/
  unit : Site
  /-- The method. -/
  method : Site
  /-- The invocation. -/
  call : Site

/-- The invocations that are counted, in order. -/
def Node.callSites (program : Node) : List CallSite :=
  program.unitSites.flatMap fun s => (program.methodSites s).flatMap fun m =>
    (program.callsIn m).map fun t => ⟨s, m, t⟩

/-- What is counted for an invocation. -/
structure CallSite.Yields (program : Node) (c : CallSite) (site : InvocationSite) : Prop where
  /-- It is in the unit of the class. -/
  unit : c.unit.Makes program site.unit
  /-- It is in the method. -/
  method : site.method = c.method.node.method
  /-- It is the invocation. -/
  invocation : c.call.node.invocation? = some site.invocation

theorem Node.mem_callsIn_iff {program : Node} {m t : Site} : t ∈ program.callsIn m ↔
    t ∈ program.sites ∧ t.node.kind = .methodInvocation ∧ t.isIn m = true := by
  rw [callsIn, List.mem_filter, Bool.and_eq_true, beq_iff_eq]

/-! ### The nodes of a body -/

/-- A node that is no class and around which there is none. -/
def Site.isOutOfClasses (s : Site) : Bool :=
  (s.around.all fun n => n.kind != .classDeclaration) && s.node.kind != .classDeclaration

theorem scopeOfAll_eq (ns : List Node) (i : Nat) :
    scopeOfAll ns = ((sitesFrom i ns).filter Site.isOutOfClasses).map (·.node) := by
  induction ns using Node.forest_induction generalizing i with
  | nil => rw [scopeOfAll, sitesFrom, List.filter_nil, List.map_nil]
  | cons n rest ihn ihrest =>
      have hfirst : (Site.at i n).isOutOfClasses = (n.kind != .classDeclaration) := rfl
      have hbelow : Site.isOutOfClasses ∘ (Site.at i n).below =
          fun u => n.kind != .classDeclaration && u.isOutOfClasses := by
        funext u
        exact Bool.and_assoc _ _ _
      rw [scopeOfAll, scope_eq, sitesFrom_cons, List.filter_cons, List.filter_append,
        List.filter_map, ihrest (i + 1), hfirst, hbelow]
      cases hkind : n.kind == .classDeclaration with
      | true => simp [bne, hkind]
      | false =>
          have hnodes : Site.node ∘ (Site.at i n).below = Site.node := rfl
          simp [bne, hkind, ihn 0, n.sites_eq, hnodes]

/-- The nodes of a block are the block itself and those in it outside of classes. -/
theorem Node.scope_of_block {b : Node} (h : b.kind = .block) :
    b.scope = b :: (b.sites.filter Site.isOutOfClasses).map (·.node) := by
  rw [scope_eq, h, if_neg (by decide), scopeOfAll_eq b.children 0, ← b.sites_eq]

/-- What a function gives for the elements for which it gives something. -/
theorem forall₂_filterMap {α β : Type} (f : α → Option β) (l : List α) :
    List.Forall₂ (fun a b => f a = some b) (l.filter fun a => (f a).isSome) (l.filterMap f) := by
  induction l with
  | nil => exact .nil
  | cons a l ih =>
      cases hf : f a with
      | none => simpa [hf] using ih
      | some b =>
          rw [List.filter_cons_of_pos (by simp [hf]), List.filterMap_cons_some hf]
          exact .cons hf ih

theorem Node.isSome_invocation? (n : Node) :
    n.invocation?.isSome = (n.kind == .methodInvocation) := by
  rw [invocation?]
  split <;> simp_all

/-- As many nodes are around a node as its place has steps before the last one. -/
theorem Node.length_place {program : Node} {s : Site} (hs : s ∈ program.sites) :
    s.place.length = s.around.length + 1 := by
  rw [mem_sites_iff] at hs
  induction hs with
  | child _ => rfl
  | further _ _ ih => simp [ih]

theorem Site.isIn_iff {t m : Site} : t.isIn m = true ↔ ∃ place, m.bodyPlace? = some place ∧
    place <+: t.place ∧ t.place ≠ place ∧
      ∀ n ∈ t.around.drop place.length, n.kind ≠ .classDeclaration := by
  simp [isIn, Option.any_eq_true, List.isPrefixOf_iff_prefix, and_assoc]

/-- What stands in a body, seen from the body. -/
theorem Site.isIn_below {program : Node} {m body u : Site} (hm : m.bodyPlace? = some body.place)
    (hbody : body ∈ program.sites) (hu : u ∈ body.node.sites) :
    (body.below u).isIn m = u.around.all (·.kind != .classDeclaration) := by
  have hdrop : (body.around ++ body.node :: u.around).drop body.place.length = u.around := by
    rw [Node.length_place hbody, List.append_cons]
    exact List.drop_left' (by simp)
  simp [isIn, hm, hdrop, place_ne_nil hu]

/-- Around a node that stands directly at another one are that one and what is around it. -/
theorem Node.around_of_isChildAt {program : Node} {s t : Site} (hs : s ∈ program.sites)
    (ht : t ∈ program.sites) (h : t.isChildAt s.place = true) :
    t.around = s.around ++ [s.node] := by
  have hlast := List.dropLast_append_getLast (place_ne_nil ht)
  rw [eq_of_beq h] at hlast
  rcases eq_or_below hs ht (hlast ▸ List.prefix_append _ _) with rfl | ⟨u, hu, rfl⟩
  · simp at hlast
  · have hplace : u.place.length = 1 := by simpa using (congrArg List.length hlast).symm
    have haround : u.around = [] := by
      rw [length_place hu] at hplace
      exact List.length_eq_zero_iff.1 (Nat.succ.inj hplace)
    rw [Site.around_below, haround]

namespace Node

variable {program : Node} {m t : Site}

theorem mem_seenIn_iff : t ∈ program.seenIn m ↔
    t ∈ program.sites ∧ t.isIn m = true ∧ t.node.kind ≠ .classDeclaration := by
  rw [seenIn, List.mem_filter, Bool.and_eq_true, bne_iff_ne]

/-- The nodes that a method looks at, seen from its body. -/
theorem seenIn_eq {body : Site} (hm : m.bodyPlace? = some body.place)
    (hbody : body ∈ program.sites) :
    program.seenIn m = (body.node.sites.filter Site.isOutOfClasses).map body.below := by
  have hisBelow : ∀ t ∈ program.sites, t.isIn m = true → t.isBelow body = true := by
    intro t _ ht
    obtain ⟨place, hplace, hfront, hne, -⟩ := Site.isIn_iff.1 ht
    obtain rfl := Option.some.inj (hm.symm.trans hplace)
    exact Site.isBelow_iff.2 ⟨hfront, hne⟩
  have hfilter : program.seenIn m = (program.sites.filter (·.isBelow body)).filter fun t =>
      t.isIn m && t.node.kind != .classDeclaration := by
    rw [seenIn, List.filter_filter]
    refine List.filter_congr fun t ht => ?_
    cases hin : t.isIn m with
    | false => simp
    | true => simp [hisBelow t ht hin]
  rw [hfilter, filter_below hbody, List.filter_map]
  refine congrArg _ (List.filter_congr fun u hu => ?_)
  rw [Function.comp_apply, Site.isIn_below hm hbody hu, Site.isOutOfClasses, Site.node_below]

/-- **The nodes that are looked at are those outside of classes**, after the body itself. -/
theorem bodyScope_eq (hm : m ∈ program.sites) (hshaped : m.node.Shaped)
    (hkind : m.node.kind = .methodDeclaration) :
    m.node.bodyScope = (m.node.child? .body).toList ++ (program.seenIn m).map (·.node) ∧
      ∀ b ∈ m.node.child? .body, b.kind = .block := by
  rw [bodyScope]
  rcases exists_body hm with ⟨hplace, hbody⟩ | ⟨i, b, hplace, hbody, hmem⟩
  · have hnone : program.seenIn m = [] := by
      refine List.filter_eq_nil_iff.2 fun t _ ht => ?_
      obtain ⟨place, hplace', -⟩ := Site.isIn_iff.1 (Bool.and_eq_true_iff.1 ht).1
      rw [hplace] at hplace'
      cases hplace'
    rw [hnone, hbody]
    exact ⟨rfl, by simp⟩
  · have hblock : b.kind = .block :=
      hshaped.method hkind b (List.mem_of_find?_eq_some hbody)
        (eq_of_beq (List.find?_some hbody :))
    rw [hbody, seenIn_eq hplace hmem, List.map_map]
    refine ⟨scope_of_block hblock, fun c hc => ?_⟩
    obtain rfl := Option.some.inj hc
    exact hblock

theorem invocation?_of_block {b : Node} (h : b.kind = .block) : b.invocation? = none := by
  rw [invocation?, h]
  rfl

/-- The invocations in the body of a method are those among the nodes at which it looks. -/
theorem callsIn_eq : program.callsIn m =
    (program.seenIn m).filter (·.node.kind == .methodInvocation) := by
  rw [callsIn, seenIn, List.filter_filter]
  refine List.filter_congr fun t _ => ?_
  cases hkind : t.node.kind == .methodInvocation with
  | false => rfl
  | true => simp [eq_of_beq hkind]

/-- **The invocations of a method are those that stand in its body.** -/
theorem invocations_method (hm : m ∈ program.sites) (hshaped : m.node.Shaped)
    (hkind : m.node.kind = .methodDeclaration) :
    List.Forall₂ (fun t i => t.node.invocation? = some i) (program.callsIn m)
      m.node.method.invocations := by
  obtain ⟨hscope, hblock⟩ := bodyScope_eq hm hshaped hkind
  have hmethod : m.node.method.invocations = m.node.bodyScope.filterMap invocation? := rfl
  have hbody : (m.node.child? .body).toList.filterMap invocation? = [] :=
    List.filterMap_eq_nil_iff.2 fun b hb => invocation?_of_block (hblock b (by simpa using hb))
  have hcalls : program.callsIn m = (program.seenIn m).filter fun t => t.node.invocation?.isSome :=
    callsIn_eq.trans (List.filter_congr fun t _ => (t.node.isSome_invocation?).symm)
  rw [hmethod, hscope, List.filterMap_append, hbody, List.nil_append, List.filterMap_map, hcalls]
  exact forall₂_filterMap _ _

end Node

/-! ### One method for each invocation -/

/-- A method of a class that becomes a unit. -/
structure Node.IsMethodOf (program : Node) (m s : Site) : Prop where
  /-- The class. -/
  unit : s ∈ program.unitSites
  /-- The method. -/
  method : m ∈ program.methodSites s

namespace Node.IsMethodOf

variable {program : Node} {m m' s s' : Site}

theorem mem (h : program.IsMethodOf m s) : m ∈ program.sites :=
  List.mem_of_mem_filter (List.mem_of_mem_filter h.method)

theorem mem_unit (h : program.IsMethodOf m s) : s ∈ program.sites := List.mem_of_mem_filter h.unit

theorem kind (h : program.IsMethodOf m s) : m.node.kind = .methodDeclaration :=
  eq_of_beq (List.mem_filter.1 h.method).2

theorem isMemberOf (h : program.IsMethodOf m s) : m.isMemberOf s = true :=
  (List.mem_filter.1 (List.mem_of_mem_filter h.method)).2

/-- There are only types and bodies around a method. -/
theorem isOpen (h : program.IsMethodOf m s) (hbodies : program.HasBodies) : m.isOpen = true := by
  obtain ⟨hopen, hclass⟩ := Bool.and_eq_true_iff.1 (List.mem_filter.1 h.unit).2
  have htype : isType s.node.kind = true := by rw [eq_of_beq hclass]; rfl
  obtain ⟨i, hplace, hdrop⟩ := Site.isMemberOf_iff.1 h.isMemberOf
  rcases exists_body h.mem_unit with ⟨hnone, -⟩ | ⟨j, b, hplace', hbody, hmem⟩
  · rw [hplace] at hnone
    cases hnone
  · obtain rfl : i = j := by simpa [hplace] using hplace'
    have hkind : isBody b.kind = true :=
      ((hbodies s h.mem_unit hopen).type htype).kind b (List.mem_of_find?_eq_some hbody)
        (eq_of_beq (List.find?_some hbody :))
    have haround : m.around = s.around ++ [s.node, b] := by
      simpa using around_of_isChildAt hmem h.mem (beq_iff_eq.2 hdrop)
    rw [Site.isOpen, haround, List.all_append, Bool.and_eq_true]
    exact ⟨hopen, by simp [opens, htype, hkind]⟩

theorem shaped (h : program.IsMethodOf m s) (hbodies : program.HasBodies) : m.node.Shaped :=
  hbodies m h.mem (h.isOpen hbodies)

/-- A method whose body is in that of another one is that one: around a method there are only types
and bodies. -/
theorem eq_of_prefix (h : program.IsMethodOf m s) (h' : program.IsMethodOf m' s')
    (hbodies : program.HasBodies) {place place' : List Nat} (hplace : m.bodyPlace? = some place)
    (hplace' : m'.bodyPlace? = some place') (hfront : place <+: place') : m = m' := by
  obtain ⟨i, -, rfl⟩ := Option.map_eq_some_iff.1 hplace
  obtain ⟨j, -, rfl⟩ := Option.map_eq_some_iff.1 hplace'
  have hlength := hfront.length_le
  rw [List.length_append, List.length_append, List.length_singleton, List.length_singleton,
    Nat.add_le_add_iff_right] at hlength
  have hm : m.place <+: m'.place :=
    List.prefix_of_prefix_length_le ((List.prefix_append _ _).trans hfront)
      (List.prefix_append _ _) hlength
  rcases eq_or_below h.mem h'.mem hm with rfl | ⟨u, -, rfl⟩
  · rfl
  · have hopens := List.all_eq_true.1 (h'.isOpen hbodies) m.node (by simp)
    rw [h.kind] at hopens
    cases hopens

/-- **No node stands in the bodies of two methods that count.** -/
theorem eq_of_isIn (h : program.IsMethodOf m s) (h' : program.IsMethodOf m' s')
    (hbodies : program.HasBodies) {t : Site} (ht : t.isIn m = true) (ht' : t.isIn m' = true) :
    m = m' := by
  obtain ⟨place, hplace, hfront, -⟩ := Site.isIn_iff.1 ht
  obtain ⟨place', hplace', hfront', -⟩ := Site.isIn_iff.1 ht'
  rcases List.prefix_or_prefix_of_prefix hfront hfront' with hle | hle
  · exact h.eq_of_prefix h' hbodies hplace hplace' hle
  · exact (h'.eq_of_prefix h hbodies hplace' hplace hle).symm

/-- A method that counts is in one class. -/
theorem unit_eq (h : program.IsMethodOf m s) (h' : program.IsMethodOf m s') : s = s' :=
  Site.eq_of_isMemberOf h.mem_unit h'.mem_unit h.isMemberOf h'.isMemberOf

end Node.IsMethodOf

theorem Node.mem_callSites_iff {program : Node} {c : CallSite} : c ∈ program.callSites ↔
    program.IsMethodOf c.method c.unit ∧ c.call ∈ program.callsIn c.method := by
  simp only [callSites, List.mem_flatMap, List.mem_map]
  constructor
  · rintro ⟨s, hs, m, hm, t, ht, rfl⟩
    exact ⟨⟨hs, hm⟩, ht⟩
  · rintro ⟨⟨hs, hm⟩, ht⟩
    exact ⟨_, hs, _, hm, _, ht, rfl⟩

theorem Node.nodup_callSites (program : Node) : program.callSites.Nodup := by
  have hsites : program.sites.Nodup := program.nodup_places.of_map
  refine List.nodup_flatMap.2 ⟨fun s _ => List.nodup_flatMap.2 ⟨fun m _ => ?_, ?_⟩, ?_⟩
  · refine (hsites.filter _).map fun t t' h => ?_
    exact congrArg CallSite.call h
  · refine ((hsites.filter _).filter _).imp fun hne c hc hc' => hne ?_
    obtain ⟨t, -, rfl⟩ := List.mem_map.1 hc
    obtain ⟨t', -, heq⟩ := List.mem_map.1 hc'
    exact (congrArg CallSite.method heq).symm
  · refine (hsites.filter _).imp fun hne c hc hc' => hne ?_
    obtain ⟨m, -, hm⟩ := List.mem_flatMap.1 hc
    obtain ⟨m', -, hm'⟩ := List.mem_flatMap.1 hc'
    obtain ⟨t, -, rfl⟩ := List.mem_map.1 hm
    obtain ⟨t', -, heq⟩ := List.mem_map.1 hm'
    exact (congrArg CallSite.unit heq).symm

/-- No invocation is counted twice. -/
theorem Node.nodup_calls {program : Node} (hbodies : program.HasBodies) :
    (program.callSites.map (·.call.place)).Nodup := by
  refine program.nodup_callSites.map_on fun c hc d hd hplace => ?_
  obtain ⟨hcm, hc⟩ := mem_callSites_iff.1 hc
  obtain ⟨hdm, hd⟩ := mem_callSites_iff.1 hd
  obtain ⟨hcmem, -, hcin⟩ := mem_callsIn_iff.1 hc
  obtain ⟨hdmem, -, hdin⟩ := mem_callsIn_iff.1 hd
  have hcall : c.call = d.call := eq_of_place_eq hcmem hdmem hplace
  rw [← hcall] at hdin
  have hmethod : c.method = d.method := hcm.eq_of_isIn hdm hbodies hcin hdin
  have hunit : c.unit = d.unit := hcm.unit_eq (hmethod ▸ hdm)
  obtain ⟨_, _, _⟩ := c
  obtain ⟨_, _, _⟩ := d
  cases hcall
  cases hmethod
  cases hunit
  rfl

/-! ### Lines -/

/-- What the lines of a node say: those of its children are among them, one after the other. -/
structure Node.SpansChildren (n : Node) : Prop where
  /-- The node ends after it starts. -/
  own : n.startLine ≤ n.endLine
  /-- The children stand inside. -/
  inside : ∀ c ∈ n.children, n.startLine ≤ c.startLine ∧ c.endLine ≤ n.endLine
  /-- A child starts after the ones before it have ended. -/
  order : n.children.Pairwise fun c d => c.endLine ≤ d.startLine

instance (n : Node) : Decidable n.SpansChildren :=
  decidable_of_iff (n.startLine ≤ n.endLine ∧
      (∀ c ∈ n.children, n.startLine ≤ c.startLine ∧ c.endLine ≤ n.endLine) ∧
        n.children.Pairwise fun c d => c.endLine ≤ d.startLine)
    ⟨fun h => ⟨h.1, h.2.1, h.2.2⟩, fun h => ⟨h.own, h.inside, h.order⟩⟩

/-- Trees whose nodes stand in the lines of their parents, one after the other. -/
def Node.Spanned (program : Node) : Prop :=
  program.SpansChildren ∧ ∀ t ∈ program.sites, t.node.SpansChildren

instance (program : Node) : Decidable program.Spanned :=
  inferInstanceAs (Decidable (_ ∧ _))

/-- The nodes of a list stand in the lines of the list, and their first lines go up. -/
theorem sitesFrom_lines {ns : List Node} {i start stop : Nat}
    (h : ∀ t ∈ sitesFrom i ns, t.node.SpansChildren)
    (hinside : ∀ c ∈ ns, start ≤ c.startLine ∧ c.endLine ≤ stop)
    (horder : ns.Pairwise fun c d => c.endLine ≤ d.startLine) :
    (∀ t ∈ sitesFrom i ns, start ≤ t.node.startLine ∧ t.node.endLine ≤ stop) ∧
      (sitesFrom i ns).Pairwise fun t u => t.node.startLine ≤ u.node.startLine := by
  induction ns using Node.forest_induction generalizing i start stop with
  | nil => simp [sitesFrom]
  | cons n rest ihn ihrest =>
      obtain ⟨hn, hbelow, hlater⟩ := forall_sitesFrom_cons.1 h
      rw [List.forall_mem_cons] at hinside
      rw [List.pairwise_cons] at horder
      obtain ⟨⟨hstart, hstop⟩, hothers⟩ := hinside
      -- what is below the node stands in its lines, what follows starts after its last line
      obtain ⟨hwithin, hsorted⟩ : (∀ u ∈ n.sites, n.startLine ≤ u.node.startLine ∧
          u.node.endLine ≤ n.endLine) ∧
            n.sites.Pairwise fun t u => t.node.startLine ≤ u.node.startLine := by
        rw [n.sites_eq] at hbelow ⊢
        exact ihn hbelow hn.inside hn.order
      obtain ⟨hafter, hsorted'⟩ :=
        ihrest hlater (fun c hc => ⟨horder.1 c hc, (hothers c hc).2⟩) horder.2
      have hown : n.startLine ≤ n.endLine := hn.own
      refine ⟨forall_sitesFrom_cons.2 ⟨⟨hstart, hstop⟩, fun u hu => ?_, fun t ht => ?_⟩, ?_⟩
      · obtain ⟨hu₁, hu₂⟩ := hwithin u hu
        exact ⟨hstart.trans hu₁, hu₂.trans hstop⟩
      · obtain ⟨ht₁, ht₂⟩ := hafter t ht
        exact ⟨by omega, ht₂⟩
      · rw [sitesFrom_cons, List.pairwise_cons, List.pairwise_append, List.pairwise_map]
        refine ⟨?_, hsorted, hsorted', ?_⟩
        · intro t ht
          rcases List.mem_append.1 ht with ht | ht
          · obtain ⟨u, hu, rfl⟩ := List.mem_map.1 ht
            exact (hwithin u hu).1
          · exact hown.trans (hafter t ht).1
        · intro t ht v hv
          obtain ⟨u, hu, rfl⟩ := List.mem_map.1 ht
          have hu₁ : u.node.startLine ≤ u.node.endLine := (hbelow u hu).own
          have hu₂ := (hwithin u hu).2
          have hv₁ := (hafter v hv).1
          rw [Site.node_below]
          omega

/-- The first lines of the nodes go up in the order of the tree. -/
theorem Node.Spanned.lines_sorted {program : Node} (h : program.Spanned) :
    program.sites.Pairwise fun t u => t.node.startLine ≤ u.node.startLine := by
  obtain ⟨hprogram, hsites⟩ := h
  rw [program.sites_eq] at hsites ⊢
  exact (sitesFrom_lines hsites hprogram.inside hprogram.order).2

theorem Node.line_invocation? {n : Node} {i : Invocation} (h : n.invocation? = some i) :
    i.line = n.startLine := by
  rw [invocation?, Option.ite_none_right_eq_some] at h
  obtain ⟨-, heq⟩ := h
  cases heq
  rfl

/-! ### The invocations of a tree -/

/-- A node stands in the body of a method of a class that becomes a unit, and no class is declared
between the body and it. -/
def Site.IsCounted (program : Node) (t : Site) : Prop :=
  ∃ s ∈ program.unitSites, ∃ m ∈ program.methodSites s, t.isIn m = true

/-- The invocations of the units of a tree. -/
structure CountsCalls (program : Node) (units : List CodeUnit) : Prop where
  /-- There is one for each of some nodes, in the unit and the method in which it stands. -/
  yields : List.Forall₂ (CallSite.Yields program) program.callSites (invocationSites units)
  /-- An invocation in the body of a method of a unit is there once. -/
  once : ∀ t ∈ program.sites, t.node.kind = .methodInvocation → t.IsCounted program →
    (program.callSites.map (·.call.place)).count t.place = 1
  /-- Any other invocation is not there. -/
  never : ∀ t ∈ program.sites, t.node.kind = .methodInvocation → ¬ t.IsCounted program →
    (program.callSites.map (·.call.place)).count t.place = 0
  /-- In a method they come in the order of the tree. -/
  order : ∀ s ∈ program.unitSites, ∀ m ∈ program.methodSites s,
    List.Forall₂ (fun t i => t.node.invocation? = some i) (program.callsIn m)
        m.node.method.invocations ∧
      (program.callsIn m).Pairwise fun t u => t.place < u.place
  /-- So their lines go up. -/
  lines : program.Spanned → ∀ u ∈ units, ∀ m ∈ u.methods,
    m.invocations.Pairwise fun i j => i.line ≤ j.line

theorem forall₂_flatMap {α β γ : Type} {R : β → γ → Prop} {l : List α} {f : α → List β}
    {g : α → List γ} (h : ∀ a ∈ l, List.Forall₂ R (f a) (g a)) :
    List.Forall₂ R (l.flatMap f) (l.flatMap g) := by
  induction l with
  | nil => exact .nil
  | cons a l ih =>
      rw [List.forall_mem_cons] at h
      rw [List.flatMap_cons, List.flatMap_cons]
      exact List.rel_append h.1 (ih h.2)

namespace Node

variable {program : Node}

theorem IsMethodOf.invocations {m s : Site} (h : program.IsMethodOf m s)
    (hbodies : program.HasBodies) :
    List.Forall₂ (fun t i => t.node.invocation? = some i) (program.callsIn m)
      m.node.method.invocations :=
  invocations_method h.mem (h.shaped hbodies) h.kind

/-- There is one invocation for each node that is counted. -/
theorem callSites_yield (hbodies : program.HasBodies) (file : Option Path) :
    List.Forall₂ (CallSite.Yields program) program.callSites
      (invocationSites (program.programUnits file)) := by
  rw [programUnits_eq hbodies file, callSites, invocationSites, List.flatMap_map]
  refine forall₂_flatMap fun s hs => ?_
  have hmakes := Site.makes (List.mem_of_mem_filter hs) file
  rw [hmakes.methods, List.flatMap_map]
  refine forall₂_flatMap fun m hm => ?_
  rw [List.forall₂_map_left_iff, List.forall₂_map_right_iff]
  have hmethod : program.IsMethodOf m s := ⟨hs, hm⟩
  exact (hmethod.invocations hbodies).imp fun t i hinvocation => ⟨hmakes, rfl, hinvocation⟩

theorem mem_calls_iff {t : Site} (ht : t ∈ program.sites)
    (hkind : t.node.kind = .methodInvocation) :
    t.place ∈ program.callSites.map (·.call.place) ↔ t.IsCounted program := by
  rw [List.mem_map]
  constructor
  · rintro ⟨c, hc, hplace⟩
    obtain ⟨hmethod, hcall⟩ := mem_callSites_iff.1 hc
    obtain ⟨hmem, -, hin⟩ := mem_callsIn_iff.1 hcall
    obtain rfl := eq_of_place_eq hmem ht hplace
    exact ⟨c.unit, hmethod.unit, c.method, hmethod.method, hin⟩
  · rintro ⟨s, hs, m, hm, hin⟩
    exact ⟨⟨s, m, t⟩, mem_callSites_iff.2 ⟨⟨hs, hm⟩, mem_callsIn_iff.2 ⟨ht, hkind, hin⟩⟩, rfl⟩

/-- The lines of invocations are the first lines of their nodes. -/
theorem lines_eq {ts : List Site} {is : List Invocation}
    (h : List.Forall₂ (fun t i => t.node.invocation? = some i) ts is) :
    is.map (·.line) = ts.map fun t => (t.node.startLine : Int) := by
  induction h with
  | nil => rfl
  | cons hi _ ih => rw [List.map_cons, List.map_cons, ih, line_invocation? hi]

theorem IsMethodOf.lines_sorted {m s : Site} (h : program.IsMethodOf m s)
    (hbodies : program.HasBodies) (hspanned : program.Spanned) :
    m.node.method.invocations.Pairwise fun i j => i.line ≤ j.line := by
  have hlines : (m.node.method.invocations.map (·.line)).Pairwise (· ≤ ·) := by
    rw [lines_eq (h.invocations hbodies), List.pairwise_map]
    exact (hspanned.lines_sorted.filter _).imp fun hle => Int.ofNat_le.2 hle
  exact List.pairwise_map.1 hlines

end Node

/-- **An invocation is counted once if it stands in the body of a method of a unit, and not at all
otherwise.**  It is counted in that unit and that method.  In a method the invocations come in the
order of the tree, so their lines go up. -/
theorem programUnits_countsCalls {program : Node} (h : program.HasBodies) (file : Option Path) :
    CountsCalls program (program.programUnits file) := by
  refine ⟨Node.callSites_yield h file, ?_, ?_, fun s hs m hm => ⟨?_, ?_⟩, ?_⟩
  · intro t ht hkind hcounted
    exact List.count_eq_one_of_mem (Node.nodup_calls h) ((Node.mem_calls_iff ht hkind).2 hcounted)
  · intro t ht hkind hcounted
    exact List.count_eq_zero_of_not_mem fun hmem => hcounted ((Node.mem_calls_iff ht hkind).1 hmem)
  · have hmethod : program.IsMethodOf m s := ⟨hs, hm⟩
    exact hmethod.invocations h
  · exact program.sites_sorted.filter _
  · intro hspanned u hu m hm
    rw [Node.programUnits_eq h file, List.mem_map] at hu
    obtain ⟨s, hs, rfl⟩ := hu
    rw [(Site.makes (List.mem_of_mem_filter hs) file).methods, List.mem_map] at hm
    obtain ⟨m, hm, rfl⟩ := hm
    have hmethod : program.IsMethodOf m s := ⟨hs, hm⟩
    exact hmethod.lines_sorted h hspanned

/-- Invocations in a method, in a class that is declared there, and in an anonymous one. -/
def busySource : List Char :=
  ['\n'].intercalate <| List.map String.toList
    ["class A \x7b", "  int x = init();", "  void m() \x7b", "    f(g());",
      "    class L \x7b void n() \x7b h(); \x7d \x7d",
      "    run(new Object() \x7b void k() \x7b i(); \x7d \x7d);", "  \x7d", "\x7d"]

/-- What is in the anonymous class is counted in the method, what is in the local class is not. -/
theorem programUnits_countsCalls_busy :
    (Node.ofText busySource).HasBodies ∧ (Node.ofText busySource).Spanned ∧
    CountsCalls (Node.ofText busySource) (extractUnits none busySource) ∧
    ((invocationSites (extractUnits none busySource)).map fun site =>
      (site.unit.name, site.method.name, site.invocation.method, site.invocation.line)) =
        [("A", "m", "f", 4), ("A", "m", "g", 4), ("A", "m", "run", 6), ("A", "m", "i", 6)] := by
  have hbodies := Node.hasBodies_ofText busySource
  have hsource : (Node.ofText busySource).Spanned ∧
      ((invocationSites (extractUnits none busySource)).map fun site =>
        (site.unit.name, site.method.name, site.invocation.method, site.invocation.line)) =
          [("A", "m", "f", 4), ("A", "m", "g", 4), ("A", "m", "run", 6), ("A", "m", "i", 6)] := by
    -- the kernel reads the characters of a list much faster than those of a literal
    unfold busySource
    repeat rw [List.map_cons]
    repeat rw [String.toList_ofList]
    decide +kernel
  exact ⟨hbodies, hsource.1, programUnits_countsCalls hbodies none, hsource.2⟩

end Cohesion.Java
