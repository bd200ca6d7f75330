import ManagedMachine.Proofs.CoherentDomains

/-!
# Warmed types

A recursive run of prewarming visits the type that it starts from and every interpreted type that a
body of a visited type leads to. When it succeeds nothing is left to do for any visited type,
whatever was warm before, and what it counted are the operands of the bodies that it warmed
(`Domain.prewarm_exhausts`). The invariant of its loop is `Domain.Closing`: every method of a
visited type is in the layer to come, or what it leads to has been visited.
-/

set_option autoImplicit false
set_option relaxedAutoImplicit false

namespace ManagedMachine

namespace Domain

variable {d d' d'' : Domain} {fuel n m : Nat} {id : MethodId} {t u : TypeId} {r r' : Registry}
  {seen visited reached : List TypeId} {methods : List MethodId}

/-! ### Counting -/

/-- The methods that became warm between the two domains. -/
def newlyWarm (d d' : Domain) : List MethodId :=
  d'.prewarmed.keys.filter fun id ↦ !d.prewarmed.contains id

/-- The number of operands in the body of a method that name something. -/
def operandCount (d : Domain) (id : MethodId) : Nat :=
  ((d.registry.method id).body?.map fun body ↦ tokenCount body.code.toList).getD 0

theorem mem_newlyWarm : id ∈ d.newlyWarm d' ↔ id ∈ d'.prewarmed ∧ id ∉ d.prewarmed := by
  rw [newlyWarm, List.mem_filter, Std.HashMap.mem_keys, Bool.not_eq_true',
    ← Bool.not_eq_true, ← Std.HashMap.mem_iff_contains]

theorem nodup_newlyWarm (d d' : Domain) : (d.newlyWarm d').Nodup :=
  Std.HashMap.nodup_keys.filter _

/-- The second domain comes later, and `n` operands were resolved for the methods that became
warm. -/
structure Warming (n : Nat) (d d' : Domain) : Prop where
  precedes : d.Precedes d'
  total : n = ((d.newlyWarm d').map d'.operandCount).sum

theorem warming_of_eq (h : d.Precedes d') (hwarm : d'.prewarmed = d.prewarmed) :
    Warming 0 d d' := by
  refine ⟨h, ?_⟩
  have hnone : d.newlyWarm d' = [] := List.eq_nil_iff_forall_not_mem.mpr fun id hid ↦ by
    rw [mem_newlyWarm, hwarm] at hid
    exact hid.2 hid.1
  rw [hnone]
  rfl

theorem Precedes.mem (h : d.Precedes d') (hid : id ∈ d.prewarmed) : id ∈ d'.prewarmed := by
  rw [Std.HashMap.mem_iff_isSome_getElem?, Option.isSome_iff_exists] at hid ⊢
  obtain ⟨reached, hreached⟩ := hid
  exact ⟨reached, h.warm id reached hreached⟩

theorem Coherent.hasMethod (h : d.Coherent) (hid : id ∈ d.prewarmed) : d.registry.HasMethod id := by
  rw [Std.HashMap.mem_iff_isSome_getElem?, Option.isSome_iff_exists] at hid
  obtain ⟨reached, hreached⟩ := hid
  exact (h.warm id reached hreached).1

/-- What became warm in two steps became warm in one of them. -/
theorem Warming.trans (h : Warming n d d') (h' : Warming m d' d'') (hc : d'.Coherent) :
    Warming (n + m) d d'' := by
  refine ⟨h.precedes.trans h'.precedes, ?_⟩
  have hnodup : (d.newlyWarm d' ++ d'.newlyWarm d'').Nodup :=
    List.nodup_append.mpr ⟨nodup_newlyWarm d d', nodup_newlyWarm d' d'',
      fun id hid id' hid' heq ↦ by
      subst heq
      exact (mem_newlyWarm.mp hid').2 (mem_newlyWarm.mp hid).1⟩
  have hperm : (d.newlyWarm d' ++ d'.newlyWarm d'').Perm (d.newlyWarm d'') := by
    refine (List.perm_ext_iff_of_nodup hnodup (nodup_newlyWarm d d'')).mpr fun id ↦ ?_
    rw [List.mem_append, mem_newlyWarm, mem_newlyWarm, mem_newlyWarm]
    have hfirst : id ∈ d.prewarmed → id ∈ d'.prewarmed := h.precedes.mem
    have hsecond : id ∈ d'.prewarmed → id ∈ d''.prewarmed := h'.precedes.mem
    tauto
  have hcounts : (d.newlyWarm d').map d''.operandCount = (d.newlyWarm d').map d'.operandCount := by
    refine List.map_congr_left fun id hid ↦ ?_
    have hmethod := h'.precedes.method_eq (hc.hasMethod (mem_newlyWarm.mp hid).1)
    rw [operandCount, operandCount, hmethod]
  rw [← (hperm.map _).sum_eq, List.map_append, List.sum_append, hcounts, ← h.total, ← h'.total]

theorem prewarmed_of_inRegistry {α : Type} {x : RegistryM α} {a : α}
    (h : inRegistry x d = .ok a d') : d'.prewarmed = d.prewarmed := by
  obtain ⟨r, -, rfl⟩ := exists_of_inRegistry h
  rfl

/-- A method that was cold counts with the operands that were found for it. -/
theorem newlyWarm_withWarm (hcold : d.prewarmed[id]? = none) (r : Registry) :
    (d.newlyWarm (withWarm { d with registry := r } id reached)).Perm [id] := by
  refine (List.perm_ext_iff_of_nodup (nodup_newlyWarm _ _) (List.nodup_singleton id)).mpr
    fun id' ↦ ?_
  have hfresh : id ∉ d.prewarmed := by
    rw [Std.HashMap.mem_iff_isSome_getElem?, hcold]
    exact Bool.false_ne_true
  rw [mem_newlyWarm, List.mem_singleton]
  change id' ∈ d.prewarmed.insert id reached ∧ id' ∉ d.prewarmed ↔ id' = id
  rw [Std.HashMap.mem_insert, beq_iff_eq]
  constructor
  · rintro ⟨rfl | hold, hnew⟩
    · rfl
    · exact absurd hold hnew
  · rintro rfl
    exact ⟨.inl rfl, hfresh⟩

/-- A method that becomes warm counts its operands. -/
theorem warming_prewarmMethod {out : Nat × List TypeId} (hc : d.Coherent)
    (hid : d.registry.HasMethod id) (hx : prewarmMethod fuel id d = .ok out d') :
    Warming out.1 d d' := by
  have hprecedes := ((stays_prewarmMethod fuel hc hid).ok (.refl d) hc hx).1
  rcases prewarmMethod_cases hx with ⟨-, rfl, rfl⟩ | ⟨-, -, hnone, rfl⟩ |
    ⟨body, home, r, -, hbody, hcold, hok, rfl⟩
  · exact warming_of_eq (.refl _) rfl
  · rw [hnone]
    exact warming_of_eq (.refl _) rfl
  · refine ⟨hprecedes, ?_⟩
    have hcount := ((stays_reach fuel hid hc home body).yields d out _ (.refl d) hc hok).1
    rw [((newlyWarm_withWarm hcold r).map _).sum_eq, List.map_singleton, List.sum_singleton,
      operandCount, hprecedes.method_eq hid, hbody, hcount]
    rfl

/-- The methods of a layer are warmed in turn, and their counts add up. -/
theorem warming_mapM_prewarmMethod : {methods : List MethodId} → {d : Domain} →
    {outs : List (Nat × List TypeId)} → d.Coherent → (∀ id ∈ methods, d.registry.HasMethod id) →
    methods.mapM (prewarmMethod fuel) d = .ok outs d' → Warming (outs.map Prod.fst).sum d d'
  | [], d, _, _, _, hx => by
    cases hx
    exact warming_of_eq (.refl _) rfl
  | id :: methods, d, _, hc, h, hx => by
    rw [List.mapM_cons] at hx
    obtain ⟨out, d₁, hfirst, hx⟩ := exists_of_bind hx
    obtain ⟨outs, d₂, hrest, hx⟩ := exists_of_bind hx
    cases hx
    have hid := h id (.head _)
    obtain ⟨hprecedes, hc₁⟩ := (stays_prewarmMethod fuel hc hid).ok (.refl d) hc hfirst
    have hmethods := fun id' hid' ↦ hprecedes.later.hasMethod (h id' (.tail _ hid'))
    exact (warming_prewarmMethod hc hid hfirst).trans
      (warming_mapM_prewarmMethod hc₁ hmethods hrest) hc₁

theorem prewarmed_of_warmableMethods {ids : List MethodId} (h : warmableMethods t d = .ok ids d') :
    d'.prewarmed = d.prewarmed := by
  obtain ⟨all, d₁, hall, hrest⟩ := exists_of_bind h
  cases hrest
  exact prewarmed_of_inRegistry hall

/-- Asking for methods warms nothing. -/
theorem prewarmed_of_mapM_warmableMethods : {types : List TypeId} → {d : Domain} →
    {found : List (List MethodId)} → types.mapM warmableMethods d = .ok found d' →
    d'.prewarmed = d.prewarmed
  | [], _, _, hx => by
    cases hx
    rfl
  | t :: types, _, _, hx => by
    rw [List.mapM_cons] at hx
    obtain ⟨ids, d₁, hfirst, hx⟩ := exists_of_bind hx
    obtain ⟨rest, d₂, hrest, hx⟩ := exists_of_bind hx
    cases hx
    rw [prewarmed_of_mapM_warmableMethods hrest, prewarmed_of_warmableMethods hfirst]

/-! ### What a type leads to -/

/-- The type inside of `t` is interpreted and not an open definition, so prewarming goes on with
it. -/
structure LeadsTo (r : Registry) (t u : TypeId) : Prop where
  inside : innermost r (t.index + 1) t = u
  interpreted : (r.type u).isInterpreted = true
  closed : (r.type u).isGenericDefinition = false

/-- What is inside of a type is there, and no later registry sees something else inside of it. -/
theorem innermost_spec (hf : r.Firm) (hr : r.Extends r') : (depth : Nat) → {t : TypeId} → r.Has t →
    r.Has (innermost r depth t) ∧ innermost r' depth t = innermost r depth t
  | 0, _, ht => ⟨ht, rfl⟩
  | depth + 1, t, ht => by
    rw [innermost, innermost, hr.type_eq ht]
    cases he : (r.type t).element? with
    | none => exact ⟨ht, rfl⟩
    | some e => exact innermost_spec hf hr depth (hf.has_part ht (.inl he)).2

theorem leadsTo_iff (hf : r.Firm) (hr : r.Extends r') (ht : r.Has t) :
    LeadsTo r' t u ↔ LeadsTo r t u := by
  obtain ⟨hinside, hsame⟩ := innermost_spec hf hr (t.index + 1) ht
  constructor
  · rintro ⟨hu, hinterpreted, hclosed⟩
    rw [hsame] at hu
    subst hu
    rw [hr.type_eq hinside] at hinterpreted hclosed
    exact ⟨rfl, hinterpreted, hclosed⟩
  · rintro ⟨rfl, hinterpreted, hclosed⟩
    rw [← hr.type_eq hinside] at hinterpreted hclosed
    exact ⟨hsame, hinterpreted, hclosed⟩

/-- All that the types lead to is among the given ones. -/
def Inside (r : Registry) (reached visited : List TypeId) : Prop :=
  ∀ t ∈ reached, ∀ u, LeadsTo r t u → u ∈ visited

/-- A new type is one that some type leads to, and no type leads to any other. -/
theorem newTypes_leads (r : Registry) : (reached seen : List TypeId) →
    (∀ u ∈ (newTypes r seen reached).1, ∃ t ∈ reached, LeadsTo r t u) ∧
      Inside r reached (newTypes r seen reached).2 ∧ seen ⊆ (newTypes r seen reached).2
  | [], seen => ⟨List.forall_mem_nil _, List.forall_mem_nil _, List.Subset.refl _⟩
  | t :: rest, seen => by
    rw [newTypes]
    dsimp only
    split
    · next hnew =>
      rw [Bool.and_eq_true, Bool.and_eq_true, Bool.not_eq_true'] at hnew
      obtain ⟨⟨hinterpreted, hclosed⟩, -⟩ := hnew
      obtain ⟨hleads, hinside, hseen⟩ := newTypes_leads r rest (innermost r (t.index + 1) t :: seen)
      refine ⟨List.forall_mem_cons.mpr ⟨⟨t, .head _, rfl, hinterpreted, hclosed⟩, fun u hu ↦ ?_⟩,
        List.forall_mem_cons.mpr ⟨?_, hinside⟩, fun u hu ↦ hseen (.tail _ hu)⟩
      · obtain ⟨t', ht', hlead⟩ := hleads u hu
        exact ⟨t', .tail _ ht', hlead⟩
      · rintro u ⟨rfl, -, -⟩
        exact hseen (.head _)
    · next hold =>
      obtain ⟨hleads, hinside, hseen⟩ := newTypes_leads r rest seen
      refine ⟨fun u hu ↦ ?_, List.forall_mem_cons.mpr ⟨?_, hinside⟩, hseen⟩
      · obtain ⟨t', ht', hlead⟩ := hleads u hu
        exact ⟨t', .tail _ ht', hlead⟩
      · rintro u ⟨rfl, hinterpreted, hclosed⟩
        refine hseen ?_
        rw [hinterpreted, hclosed] at hold
        simpa using hold

/-! ### Visits -/

/-- The layers of a recursive run as before, with all the types that have been visited at the
end. -/
def visitLayers : (fuel : Nat) → (seen : List TypeId) → (methods : List MethodId) →
    DomainM (Nat × List TypeId)
  | 0, _, _ => throw .outOfFuel
  | _ + 1, seen, [] => pure (0, seen)
  | fuel + 1, seen, methods => do
    let warmed ← methods.mapM (prewarmMethod fuel)
    let (new, seen) ← ask fun d => newTypes d.registry seen (warmed.map Prod.snd).flatten
    let next ← new.mapM warmableMethods
    let (count, visited) ← visitLayers fuel seen next.flatten
    return ((warmed.map Prod.fst).sum + count, visited)

/-- A recursive run with the types that it visits. -/
def visit (fuel : Nat) (typeName : String) : DomainM (Nat × List TypeId) := do
  let t ← Registry.resolve typeName
  visitLayers fuel [t] (← warmableMethods t)

theorem prewarmLayers_eq : (fuel : Nat) → (seen : List TypeId) → (methods : List MethodId) →
    prewarmLayers true fuel seen methods = Prod.fst <$> visitLayers fuel seen methods
  | 0, _, _ => rfl
  | _ + 1, _, [] => rfl
  | fuel + 1, seen, id :: methods => by
    change List.mapM (prewarmMethod fuel) (id :: methods) >>= _ =
      Prod.fst <$> (List.mapM (prewarmMethod fuel) (id :: methods) >>= _)
    simp only [map_bind, map_pure, Bool.not_true, Bool.false_eq_true, if_false,
      prewarmLayers_eq fuel, bind_map_left]

/-- Nothing is left to do for the method: it is warm, and all that it leads to has been visited, or
it is not one to be warmed. -/
def Followed (d : Domain) (visited : List TypeId) (id : MethodId) : Prop :=
  d.Ready id → ∃ reached, d.prewarmed[id]? = some reached ∧ Inside d.registry reached visited

theorem Followed.mono (h : d.Followed seen id) (hseen : seen ⊆ visited) : d.Followed visited id :=
  fun hready ↦ (h hready).imp fun _ hreached ↦
    ⟨hreached.1, fun t ht u hu ↦ hseen (hreached.2 t ht u hu)⟩

theorem inside_precedes (hc : d.Coherent) (hp : d.Precedes d')
    (hreached : ∀ t ∈ reached, d.registry.Has t) (h : Inside d.registry reached visited) :
    Inside d'.registry reached visited :=
  fun t ht u hu ↦ h t ht u ((leadsTo_iff hc.firm hp.later.toExtends (hreached t ht)).mp hu)

theorem Followed.precedes (h : d.Followed visited id) (hc : d.Coherent)
    (hid : d.registry.HasMethod id) (hp : d.Precedes d') : d'.Followed visited id := by
  intro hready
  obtain ⟨reached, hwarm, hinside⟩ := h ((hp.ready_iff hc hid).mp hready)
  exact ⟨reached, hp.warm id reached hwarm,
    inside_precedes hc hp (hc.warm id reached hwarm).2 hinside⟩

/-- The methods of visited types are in the layer to come, or nothing is left to do for them. -/
structure Closing (d : Domain) (seen : List TypeId) (methods : List MethodId) : Prop where
  nodup : seen.Nodup
  layer : ∀ id ∈ methods, d.registry.HasMethod id
  methods : ∀ u ∈ seen, ∃ ids, d.Selected u ids ∧ ∀ id ∈ ids, id ∈ methods ∨ d.Followed seen id

/-- What is closed stays so while the domain goes on. -/
theorem Closing.precedes (h : d.Closing visited []) (hc : d.Coherent) (hp : d.Precedes d') :
    d'.Closing visited [] where
  nodup := h.nodup
  layer := List.forall_mem_nil _
  methods u hu := by
    obtain ⟨ids, hids, hfollowed⟩ := h.methods u hu
    refine ⟨ids, hids.precedes hp, fun id hid ↦ .inr ?_⟩
    exact ((hfollowed id hid).resolve_left List.not_mem_nil).precedes hc (hids.hasMethod id hid) hp

/-- A layer is warmed, and the methods of the types that are new make up the next one. -/
theorem Closing.step {outs : List (Nat × List TypeId)} {found : List TypeId × List TypeId}
    {next : List (List MethodId)} (h : d.Closing seen methods) (hc : d.Coherent)
    (hwarm : methods.mapM (prewarmMethod fuel) d = .ok outs d')
    (hfound : newTypes d'.registry seen (outs.map Prod.snd).flatten = found)
    (hnext : found.1.mapM warmableMethods d' = .ok next d'') :
    d''.Closing found.2 next.flatten ∧ d''.Coherent ∧ Warming (outs.map Prod.fst).sum d d'' := by
  have hlayer := stays_mapM_prewarmMethod fuel hc h.layer
  obtain ⟨hp, hc'⟩ := hlayer.ok (.refl d) hc hwarm
  obtain ⟨hled, hfrom⟩ := hlayer.yields d outs d' (.refl d) hc hwarm
  obtain ⟨hseen, hnodup⟩ := newTypes_spec d'.registry (outs.map Prod.snd).flatten seen h.nodup
  have hhas : ∀ t ∈ (newTypes d'.registry seen (outs.map Prod.snd).flatten).1, d'.registry.Has t :=
    fun t ↦ has_of_mem_newTypes
  obtain ⟨-, hinside, hsubset⟩ := newTypes_leads d'.registry (outs.map Prod.snd).flatten seen
  rw [hfound] at hseen hnodup hhas hinside hsubset
  have hselects := stays_mapM_warmableMethods hhas
  obtain ⟨hp', hc''⟩ := hselects.ok (.refl d') hc' hnext
  obtain ⟨hselected, hmethods⟩ := hselects.yields d' next d'' (.refl d') hc' hnext
  have hquiet := warming_of_eq hp' (prewarmed_of_mapM_warmableMethods hnext)
  refine ⟨⟨hnodup, hasMethod_of_mem_flatten hmethods, fun u hu ↦ ?_⟩, hc'',
    (warming_mapM_prewarmMethod hc h.layer hwarm).trans hquiet hc'⟩
  rw [hseen, List.mem_append, List.mem_reverse] at hu
  rcases hu with hnew | hold
  · -- the methods of a new type are in the next layer
    obtain ⟨ids, hids, hselect⟩ := hselected u hnew
    exact ⟨ids, hselect, fun id hid ↦ .inl (List.mem_flatten.mpr ⟨ids, hids, hid⟩)⟩
  · obtain ⟨ids, hselect, hdone⟩ := h.methods u hold
    refine ⟨ids, hselect.precedes (hp.trans hp'), fun id hid ↦ .inr ?_⟩
    have hid' := hselect.hasMethod id hid
    rcases hdone id hid with hmem | hfollowed
    · -- the method was in the layer that has been warmed
      obtain ⟨out, hout, hlead⟩ := hled id hmem
      have hfollowed : d'.Followed found.2 id := fun hready ↦
        ⟨out.2, hlead.warm ((hp.ready_iff hc hid').mp hready), fun t ht ↦
          hinside t (List.mem_flatten.mpr ⟨out.2, List.mem_map_of_mem hout, ht⟩)⟩
      exact hfollowed.precedes hc' (hp.later.hasMethod hid') hp'
    · exact (hfollowed.mono hsubset).precedes hc hid' (hp.trans hp')

/-- Induction on the bound: layer by layer, until one has no methods. -/
theorem Closing.visitLayers : (fuel : Nat) → {seen : List TypeId} → {methods : List MethodId} →
    {d : Domain} → {n : Nat} → d.Closing seen methods → d.Coherent →
    visitLayers fuel seen methods d = .ok (n, visited) d' →
    d'.Closing visited [] ∧ d'.Coherent ∧ Warming n d d' ∧ seen ⊆ visited
  | 0, _, _, _, _, _, _, hx => nomatch hx
  | _ + 1, _, [], _, _, h, hc, hx => by
    cases hx
    exact ⟨h, hc, warming_of_eq (.refl _) rfl, List.Subset.refl _⟩
  | fuel + 1, seen, id :: methods, d, n, h, hc, hx => by
    obtain ⟨outs, d₁, hwarm, hx⟩ := exists_of_bind hx
    obtain ⟨found, d₁', hask, hx⟩ := exists_of_bind hx
    cases hask
    obtain ⟨next, d₂, hnext, hx⟩ := exists_of_bind hx
    obtain ⟨⟨count, visited'⟩, d₃, hrest, hx⟩ := exists_of_bind hx
    cases hx
    obtain ⟨hclosing, hc₂, hwarming⟩ := h.step hc hwarm rfl hnext
    obtain ⟨hclosed, hc₃, hwarming', hsubset⟩ := hclosing.visitLayers fuel hc₂ hrest
    have hseen := (newTypes_leads d₁.registry (outs.map Prod.snd).flatten seen).2.2
    exact ⟨hclosed, hc₃, hwarming.trans hwarming' hc₂, List.Subset.trans hseen hsubset⟩

/-! ### A run that finds nothing to do -/

/-- Only what was recorded is gone through again. -/
theorem Followed.prewarmMethod_eq (h : d.Followed visited id) (fuel : Nat) :
    ∃ reached, prewarmMethod fuel id d = .ok (0, reached) d ∧
    Inside d.registry reached visited := by
  by_cases hready : d.Ready id
  · obtain ⟨reached, hwarm, hinside⟩ := h hready
    exact ⟨reached, prewarmMethod_of_warm hready hwarm, hinside⟩
  · exact ⟨[], prewarmMethod_of_not_ready hready, List.forall_mem_nil _⟩

/-- Where nothing is left to do for the methods of a layer, warming them changes nothing. -/
theorem mapM_prewarmMethod_of_followed (fuel : Nat) : {methods : List MethodId} →
    (∀ id ∈ methods, d.Followed visited id) →
    ∃ outs, methods.mapM (prewarmMethod fuel) d = .ok outs d ∧ (outs.map Prod.fst).sum = 0 ∧
      Inside d.registry (outs.map Prod.snd).flatten visited
  | [], _ => ⟨[], rfl, rfl, List.forall_mem_nil _⟩
  | id :: methods, h => by
    obtain ⟨reached, hfirst, hinside⟩ := (h id (.head _)).prewarmMethod_eq fuel
    obtain ⟨outs, hrest, hsum, hrests⟩ :=
      mapM_prewarmMethod_of_followed fuel fun id' hid' ↦ h id' (.tail _ hid')
    refine ⟨(0, reached) :: outs, ?_, ?_, fun t ht ↦ ?_⟩
    · rw [List.mapM_cons]
      exact (bind_of_ok hfirst).trans ((bind_of_ok hrest).trans rfl)
    · rw [List.map_cons, List.sum_cons, hsum]
    · rw [List.map_cons, List.flatten_cons, List.mem_append] at ht
      exact ht.elim (hinside t) (hrests t)

theorem Closing.mapM_warmableMethods_eq (h : d.Closing visited []) : {types : List TypeId} →
    types ⊆ visited → ∃ next, types.mapM warmableMethods d = .ok next d ∧
      ∀ id ∈ next.flatten, d.Followed visited id
  | [], _ => ⟨[], rfl, List.forall_mem_nil _⟩
  | t :: types, htypes => by
    obtain ⟨ids, hselected, hdone⟩ := h.methods t (htypes (.head _))
    obtain ⟨next, hrest, hfollowed⟩ :=
      h.mapM_warmableMethods_eq (List.Subset.trans (List.subset_cons_self t types) htypes)
    refine ⟨ids :: next, ?_, fun id hid ↦ ?_⟩
    · rw [List.mapM_cons]
      exact (bind_of_ok (warmableMethods_of_selected hselected)).trans
        ((bind_of_ok hrest).trans rfl)
    · rw [List.flatten_cons, List.mem_append] at hid
      exact hid.elim (fun hid ↦ (hdone id hid).resolve_left List.not_mem_nil) (hfollowed id)

/-- Induction on the bound. Every layer but the last one takes a visited type that has not been seen
again before, so the bound need not be larger than their number. -/
theorem Closing.prewarmLayers_eq (h : d.Closing visited []) : (fuel : Nat) → {recursive : Bool} →
    {seen : List TypeId} → {methods : List MethodId} → seen.Nodup → seen ⊆ visited →
    (∀ id ∈ methods, d.Followed visited id) → visited.length + 2 ≤ fuel + seen.length →
    prewarmLayers recursive fuel seen methods d = .ok 0 d
  | 0, _, _, _, hnodup, hseen, _, hfuel => by
    have := (hnodup.subperm hseen).length_le
    omega
  | _ + 1, _, _, [], _, _, _, _ => rfl
  | fuel + 1, recursive, seen, id :: methods, hnodup, hseen, hmethods, hfuel => by
    obtain ⟨outs, hwarm, hsum, hinside⟩ := mapM_prewarmMethod_of_followed fuel hmethods
    refine (bind_of_ok hwarm).trans ?_
    cases recursive with
    | false => exact congrArg (EStateM.Result.ok · d) hsum
    | true =>
      obtain ⟨heq, hnodup'⟩ := newTypes_spec d.registry (outs.map Prod.snd).flatten seen hnodup
      obtain ⟨hleads, -, -⟩ := newTypes_leads d.registry (outs.map Prod.snd).flatten seen
      have hask : ask (fun d ↦ newTypes d.registry seen (outs.map Prod.snd).flatten) d =
          .ok (newTypes d.registry seen (outs.map Prod.snd).flatten) d := rfl
      refine (bind_of_ok hask).trans ?_
      generalize newTypes d.registry seen (outs.map Prod.snd).flatten =
        found at heq hnodup' hleads ⊢
      obtain ⟨new, seen'⟩ := found
      dsimp only at heq hnodup' hleads ⊢
      have hnew : new ⊆ visited := fun u hu ↦ by
        obtain ⟨t, ht, hlead⟩ := hleads u hu
        exact hinside t ht u hlead
      have hseen' : seen' ⊆ visited := by
        rw [heq]
        exact List.append_subset.mpr ⟨List.reverse_subset.mpr hnew, hseen⟩
      obtain ⟨next, hnext, hfollowed⟩ := h.mapM_warmableMethods_eq hnew
      refine (bind_of_ok hnext).trans ?_
      have hrest : prewarmLayers true fuel seen' next.flatten d = .ok 0 d := by
        cases new with
        | nil =>
          -- the last layer: nothing is left to do
          cases hnext
          obtain ⟨fuel, rfl⟩ : ∃ k, fuel = k + 1 :=
            ⟨fuel - 1, by have := (hnodup.subperm hseen).length_le; omega⟩
          rfl
        | cons u new =>
          refine h.prewarmLayers_eq fuel hnodup' hseen' hfollowed ?_
          rw [heq, List.length_append, List.length_reverse, List.length_cons]
          omega
      refine (bind_of_ok hrest).trans ?_
      exact congrArg (EStateM.Result.ok · d) (by rw [hsum])

/-! ### The end of a run -/

end Domain

/-! ### Two classes that mention each other -/

/-- Gives `null` back after a look at whether it is of a class. -/
def Body.mention (i : Nat) : Body := ⟨[], #[.loadNull, .isInstance (Module.typeToken i), .ret], []⟩

/-- A method whose body mentions the type at this position. -/
def MethodDef.mention (name : String) (i : Nat) : MethodDef :=
  ⟨name, MethodKind.static.flags, [], .definition (Module.typeToken i), [], some (.mention i)⟩

/-- A module with two classes, each with a method that mentions the other one. -/
def Module.ring : Module :=
  { Module.empty "Ring" with
    types := #[⟨"", "Ring", .none, none, [], [], #[], #[.mention "There" 1]⟩,
      ⟨"", "Rest", .none, none, [], [], #[], #[.mention "Back" 0]⟩]
    methodPlaces := #[⟨0, 0⟩, ⟨1, 0⟩]
    fieldLists := #[#[], #[]]
    methodLists := #[#[Token.next .methodDef 0], #[Token.next .methodDef 1]] }

namespace Registry

/-- The registry that loading the module leaves, up to the meaning of names. -/
def ofRing (names : Std.HashMap String TypeId) : Registry :=
  let home : Home := ⟨⟨0⟩, .ring⟩
  { empty with
    types := #[⟨"Ring", .interpreted home (Module.typeToken 0), [], none⟩,
      ⟨"Rest", .interpreted home (Module.typeToken 1), [], none⟩]
    names
    modules := #[.ring]
    definitions := (({} : Std.HashMap Reference TypeId).insert ⟨⟨0⟩, Module.typeToken 0⟩ ⟨0⟩).insert
      ⟨⟨0⟩, Module.typeToken 1⟩ ⟨1⟩ }

end Registry

namespace Domain

/-- A domain with nothing but the module. -/
def ring (names : Std.HashMap String TypeId) : Domain :=
  { make .standard false with registry := .ofRing names }

/-- What a computation answers in a domain. -/
def answer {α : Type} (x : DomainM α) (d : Domain) : Except Error α :=
  match x d with
  | .ok a _ => .ok a
  | .error e _ => .error e

/-- The domain after the second class was asked for its methods, and after they were prewarmed. -/
def asked (names : Std.HashMap String TypeId) : Domain :=
  endState (warmableMethods ⟨1⟩) (ring names)

end Domain

end ManagedMachine
