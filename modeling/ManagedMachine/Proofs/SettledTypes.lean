import ManagedMachine.Proofs.Settling

/-!
Types settle. Interning a descriptor gives its name a meaning, and whoever interns it again finds
that one, so whatever is built up from names, definitions and the parameters of a context comes out
the same in any later registry. A signature without parameters does so in every context.

`settles_intern` is where something is remembered. Everything that makes a type goes through it,
`settles_makeArray` and its like, and a signature is settled by recursion on its form with the
arguments that it consists of.
-/

set_option autoImplicit false
set_option relaxedAutoImplicit false

namespace ManagedMachine

namespace Registry

variable {α β γ : Type} {R : Registry → Registry → Prop} {r r' r'' r₀ z : Registry}

/-! ### Adding -/

/-- A later registry is sound if what it has beyond the sound one is. -/
theorem Sound.later (hs : r.Sound) (hl : r.Later r')
    (types : ∀ (i : Nat) d, r'.types[i]? = some d → r.types[i]? = some d ∨ r'.Admits d)
    (methods : ∀ (i : Nat) m, r'.methods[i]? = some m → r.methods[i]? = some m ∨ r'.AdmitsMethod m)
    (names : ∀ (name : String) t, r'.names[name]? = some t → r.names[name]? = some t ∨ r'.Has t)
    (hosts : ∀ (name : String) t,
      r'.scoped_[name]? = some t → r.scoped_[name]? = some t ∨ r'.Has t)
    (bases : ∀ (t b : TypeId), r'.facts.bases[t]? = some (some b) →
      r.facts.bases[t]? = some (some b) ∨ r'.Has b)
    (declared : ∀ (t : TypeId) ids, r'.facts.methods[t]? = some ids →
      r.facts.methods[t]? = some ids ∨ ∀ id ∈ ids, r'.HasMethod id)
    (instances : ∀ (key : MethodId × String) id, r'.facts.instances[key]? = some id →
      r.facts.instances[key]? = some id ∨ r'.HasMethod id) : r'.Sound where
  types i d hd := (types i d hd).elim (fun h ↦ hl.admits (hs.types i d h)) id
  methods i m hm := (methods i m hm).elim (fun h ↦ hl.admitsMethod (hs.methods i m h)) id
  names name t ht := (names name t ht).elim (fun h ↦ hl.has (hs.names name t h)) id
  hosts name t ht := (hosts name t ht).elim (fun h ↦ hl.has (hs.hosts name t h)) id
  definitions ref t ht := hl.has (hs.definitions ref t (hl.definitions ▸ ht))
  bases t b hb := (bases t b hb).elim (fun h ↦ hl.has (hs.bases t b h)) id
  declared t ids hids := (declared t ids hids).elim
    (fun h id hid ↦ hl.hasMethod (hs.declared t ids h id hid)) id
  instances key id hid := (instances key id hid).elim
    (fun h ↦ hl.hasMethod (hs.instances key id h)) (fun h ↦ h)

theorem getElem?_push_cases {α : Type} {xs : Array α} {a b : α} {i : Nat}
    (h : (xs.push b)[i]? = some a) : xs[i]? = some a ∨ a = b := by
  rw [Array.getElem?_push] at h
  split at h
  · exact .inr (Option.some.inj h).symm
  · exact .inl h

theorem getElem?_insertIfNew_cases {κ α : Type} [BEq κ] [Hashable κ] [LawfulBEq κ]
    {m : Std.HashMap κ α} {k k' : κ} {a b : α} (h : (m.insertIfNew k' b)[k]? = some a) :
    m[k]? = some a ∨ a = b := by
  rw [Std.HashMap.getElem?_insertIfNew] at h
  split at h
  · exact .inr (Option.some.inj h).symm
  · exact .inl h

theorem getElem?_insertIfNew_of_none {κ α : Type} [BEq κ] [Hashable κ] [LawfulBEq κ]
    {m : Std.HashMap κ α} {k : κ} {a : α} (h : m[k]? = none) :
    (m.insertIfNew k a)[k]? = some a := by
  have hnew : k ∉ m := by rwa [Std.HashMap.mem_iff_isSome_getElem?, Option.not_isSome_iff_eq_none]
  rw [Std.HashMap.getElem?_insertIfNew, if_pos ⟨beq_self_eq_true k, hnew⟩]

theorem getElem?_insert_cases {κ α : Type} [BEq κ] [Hashable κ] [LawfulBEq κ]
    {m : Std.HashMap κ α} {k k' : κ} {a b : α} (h : (m.insert k' b)[k]? = some a) :
    m[k]? = some a ∨ k' = k ∧ a = b := by
  rw [Std.HashMap.getElem?_insert] at h
  split at h
  · next hk => exact .inr ⟨eq_of_beq hk, (Option.some.inj h).symm⟩
  · exact .inl h

theorem getElem?_insert_of_ne {κ α : Type} [BEq κ] [Hashable κ] [LawfulBEq κ]
    {m : Std.HashMap κ α} {k k' : κ} {a : α} (h : k' ≠ k) : (m.insert k' a)[k]? = m[k]? := by
  rw [Std.HashMap.getElem?_insert, if_neg fun heq ↦ h (eq_of_beq heq)]

theorem getElem?_insertIfNew_of_ne {κ α : Type} [BEq κ] [Hashable κ] [LawfulBEq κ]
    {m : Std.HashMap κ α} {k k' : κ} {a : α} (h : k' ≠ k) : (m.insertIfNew k' a)[k]? = m[k]? := by
  rw [Std.HashMap.getElem?_insertIfNew, if_neg fun heq ↦ h (eq_of_beq heq.1)]

theorem getElem?_insert_of_some {κ α : Type} [BEq κ] [Hashable κ] [LawfulBEq κ]
    {m : Std.HashMap κ α} {k k' : κ} {a b : α} (hk : m[k']? = none) (h : m[k]? = some a) :
    (m.insert k' b)[k]? = some a := by
  rw [Std.HashMap.getElem?_insert, if_neg, h]
  intro heq
  rw [eq_of_beq heq, h] at hk
  cases hk

theorem safe_addType {d : Descriptor} (hd : r₀.Admits d) :
    Safe Spells r₀ (addType d) fun t r ↦ r.Has t := by
  have hstep (r : Registry) : r.Spells { r with types := r.types.push d } :=
    { toExtends := grows_addType d r, hosts _ _ h := h, bases _ _ h := h, declared _ _ h := h,
      instances _ _ h := h, definitions := rfl, modules := rfl, host := rfl, tokens := rfl,
      facts := rfl }
  refine ⟨fun r hl hs ↦ ⟨hstep r, ?_⟩, fun r t r' _ _ hx ↦ ?_⟩
  · refine hs.later (hstep r).toLater (fun i d' hd' ↦ ?_) (fun _ _ ↦ .inl) (fun _ _ ↦ .inl)
      (fun _ _ ↦ .inl) (fun _ _ ↦ .inl) (fun _ _ ↦ .inl) (fun _ _ ↦ .inl)
    rcases getElem?_push_cases hd' with hold | rfl
    · exact .inl hold
    · exact .inr ((hl.trans (hstep r).toLater).admits hd)
  · cases hx
    simp [Has]

theorem safe_addMethod {m : Method} (hm : r₀.AdmitsMethod m) :
    Safe Spells r₀ (addMethod m) fun id r ↦ r.HasMethod id := by
  have hstep (r : Registry) : r.Spells { r with methods := r.methods.push m } :=
    { toExtends := grows_addMethod m r, hosts _ _ h := h, bases _ _ h := h, declared _ _ h := h,
      instances _ _ h := h, definitions := rfl, modules := rfl, host := rfl, tokens := rfl,
      facts := rfl }
  refine ⟨fun r hl hs ↦ ⟨hstep r, ?_⟩, fun r id r' _ _ hx ↦ ?_⟩
  · refine hs.later (hstep r).toLater (fun _ _ ↦ .inl) (fun i m' hm' ↦ ?_) (fun _ _ ↦ .inl)
      (fun _ _ ↦ .inl) (fun _ _ ↦ .inl) (fun _ _ ↦ .inl) (fun _ _ ↦ .inl)
    rcases getElem?_push_cases hm' with hold | rfl
    · exact .inl hold
    · exact .inr ((hl.trans (hstep r).toLater).admitsMethod hm)
  · cases hx
    simp [HasMethod]

theorem safe_addName {name : String} {t : TypeId} (ht : r₀.Has t) :
    Safe Spells r₀ (addName name t) fun _ _ ↦ True := by
  have hstep (r : Registry) : r.Spells { r with names := r.names.insertIfNew name t } :=
    { toExtends := grows_addName name t r, hosts _ _ h := h, bases _ _ h := h,
      declared _ _ h := h, instances _ _ h := h, definitions := rfl, modules := rfl, host := rfl,
      tokens := rfl, facts := rfl }
  refine .modify fun r hl hs ↦ ⟨hstep r, ?_, trivial⟩
  refine hs.later (hstep r).toLater (fun _ _ ↦ .inl) (fun _ _ ↦ .inl) (fun _ t' ht' ↦ ?_)
    (fun _ _ ↦ .inl) (fun _ _ ↦ .inl) (fun _ _ ↦ .inl) (fun _ _ ↦ .inl)
  rcases getElem?_insertIfNew_cases ht' with hold | rfl
  · exact .inl hold
  · exact .inr (hl.has ht)

theorem ask_bind {query : Registry → α} {f : α → RegistryM β} :
    (ask query >>= f) r = f (query r) r := rfl

theorem intern_of_known {d : Descriptor} {t : TypeId} (h : r.names[d.name]? = some t) :
    intern d r = .ok t r := by
  rw [intern, ask_bind, h]
  rfl

theorem intern_of_new {d : Descriptor} (h : r.names[d.name]? = none) :
    intern d r = .ok ⟨r.types.size⟩ { r with
      types := r.types.push d
      names := r.names.insertIfNew d.name ⟨r.types.size⟩ } := by
  rw [intern, ask_bind, h]
  rfl

theorem safe_intern {d : Descriptor} (hd : r₀.Admits d) :
    Safe Spells r₀ (intern d) fun t r ↦ r.Has t ∧ r.names[d.name]? = some t := by
  have hkeeps : Safe Spells r₀ (intern d) fun _ _ ↦ True := by
    refine .ask_bind fun r hl _ ↦ ?_
    split
    · exact .pure fun _ _ _ ↦ trivial
    · refine (safe_addType (hl.admits hd)).bind fun t r₂ _ _ ht ↦ ?_
      exact (safe_addName ht).bind fun _ _ _ _ _ ↦ .pure fun _ _ _ ↦ trivial
  have hnamed (r r' : Registry) (t : TypeId) (hx : intern d r = .ok t r') :
      r'.names[d.name]? = some t := by
    cases hknown : r.names[d.name]? with
    | some t' =>
      rw [intern_of_known hknown] at hx
      cases hx
      exact hknown
    | none =>
      rw [intern, ask_bind, hknown] at hx
      cases hx
      exact getElem?_insertIfNew_of_none hknown
  exact ⟨hkeeps.keeps, fun r t r' hl hs hx ↦
    ⟨(hkeeps.ok hl hs hx).2.names _ _ (hnamed r r' t hx), hnamed r r' t hx⟩⟩

/-- The descriptor's name means the type from then on. -/
theorem settles_intern {d : Descriptor} (hd : r₀.Admits d) :
    Settles z Spells r₀ (intern d) (intern d) fun t r ↦ r.Has t :=
  (Settles.of_known (safe_intern hd) fun _ _ ht hlast _ ↦
    intern_of_known (hlast.names _ _ ht.2)).imp fun _ _ ht ↦ ht.1

/-- The descriptor that is asked for by name is the same in `z`. -/
theorem settles_internNamed {d : String → Descriptor} {t : TypeId} (ht : r₀.Has t)
    (hd : ∀ name, (d name).args = [] ∧ (d name).definition = none) :
    Settles z Spells r₀ (ask (·.typeName t) >>= fun name ↦ intern (d name))
      (ask (·.typeName t) >>= fun name ↦ intern (d name)) fun t r ↦ r.Has t := by
  refine .ask_bind (fun r hl hlast ↦ hlast.typeName_eq (hl.has ht)) fun r _ _ ↦
    settles_intern ?_
  rw [Admits, (hd _).1, (hd _).2]
  exact ⟨fun _ h ↦ (nomatch h), fun _ h ↦ (nomatch h)⟩

theorem settles_makeArray {element : TypeId} (rank : UInt8) (h : r₀.Has element) :
    Settles z Spells r₀ (makeArray element rank) (makeArray element rank) fun t r ↦ r.Has t :=
  settles_internNamed h fun _ ↦ ⟨rfl, rfl⟩

theorem settles_makeByRef {element : TypeId} (h : r₀.Has element) :
    Settles z Spells r₀ (makeByRef element) (makeByRef element) fun t r ↦ r.Has t :=
  settles_internNamed h fun _ ↦ ⟨rfl, rfl⟩

theorem settles_makeParameter (name : String) :
    Settles z Spells r₀ (makeParameter name) (makeParameter name) fun t r ↦ r.Has t :=
  settles_intern ⟨fun _ h ↦ (nomatch h), fun _ h ↦ (nomatch h)⟩

theorem Sound.has_definition (hs : r.Sound) {t : TypeId} (ht : r.Has t) :
    r.Has ((r.type t).definition.getD t) := by
  cases hd : (r.type t).definition with
  | none => exact ht
  | some open_ => exact (hs.type ht).2 open_ hd

theorem hasArgs_zip (names : List String) {args : List TypeId} (h : ∀ t ∈ args, r.Has t) :
    r.HasArgs ((names.zip args).map fun (name, type) ↦ Binding.mk name type) := by
  intro b hb
  obtain ⟨⟨name, t⟩, hmem, rfl⟩ := List.mem_map.mp hb
  exact h t (List.of_mem_zip hmem).2

theorem Extends.map_typeName_eq (h : r.Extends r') {ts : List TypeId} (hts : ∀ t ∈ ts, r.Has t) :
    ts.map r'.typeName = ts.map r.typeName :=
  List.map_congr_left fun t ht ↦ h.typeName_eq (hts t ht)

theorem settles_makeInstance {definition : TypeId} {args : List TypeId} (hd : r₀.Has definition)
    (ha : ∀ t ∈ args, r₀.Has t) :
    Settles z Spells r₀ (makeInstance definition args) (makeInstance definition args)
      fun t r ↦ r.Has t := by
  refine .get_bind (fun r hl hs hlast ↦ ?_) fun r hl hs ↦ ?_
  · have hopen := hs.has_definition (hl.has hd)
    simp only [hlast.type_eq (hl.has hd), hlast.type_eq hopen,
      hlast.map_typeName_eq fun t ht ↦ hl.has (ha t ht)]
  · dsimp only
    split
    · exact .throw _
    · exact settles_intern ⟨hasArgs_zip _ fun t ht ↦ hl.has (ha t ht), fun t ht ↦
        Option.some.inj ht ▸ hs.has_definition (hl.has hd)⟩

theorem ofHostType_of_known {type : HostType} {t : TypeId}
    (h : r.scoped_[type.scopedName]? = some t) : ofHostType type r = .ok t r := by
  rw [ofHostType, ask_bind, h]
  rfl

theorem ofHostType_of_new {type : HostType} (h : r.scoped_[type.scopedName]? = none) :
    ∃ r', ofHostType type r = .ok ⟨r.types.size⟩ r' ∧ ∃ backed, r' =
      { r with
        types := r.types.push ⟨type.fullName, .native type, [], none⟩
        scoped_ := r.scoped_.insert type.scopedName ⟨r.types.size⟩
        names := r.names.insertIfNew type.fullName ⟨r.types.size⟩
        backed } := by
  rw [ofHostType, ask_bind, h]
  cases type.backing with
  | none => exact ⟨_, rfl, r.backed, rfl⟩
  | some kind => exact ⟨_, rfl, r.backed.insertIfNew kind ⟨r.types.size⟩, rfl⟩

/-- The host type is in use from then on. -/
theorem ofHostType_ok (hs : r.Sound) (type : HostType) : ∃ t r', ofHostType type r = .ok t r' ∧
    r.Spells r' ∧ r'.Sound ∧ r'.scoped_[type.scopedName]? = some t := by
  cases hknown : r.scoped_[type.scopedName]? with
  | some t => exact ⟨t, r, ofHostType_of_known hknown, Forward.refl r, hs, hknown⟩
  | none =>
    obtain ⟨r', hmade, backed, hr'⟩ := ofHostType_of_new hknown
    have hstep : r.Spells r' := by
      subst hr'
      exact
        { types := fun _ _ h ↦ getElem?_push_of_some h
          methods := fun _ _ h ↦ h
          names := fun _ _ h ↦ getElem?_insertIfNew_of_some h
          layouts := fun _ _ h ↦ h
          hosts := fun _ _ h ↦ getElem?_insert_of_some hknown h
          bases := fun _ _ h ↦ h
          declared := fun _ _ h ↦ h
          instances := fun _ _ h ↦ h
          definitions := rfl
          modules := rfl
          host := rfl
          tokens := rfl
          facts := rfl }
    have hmadeThere : r'.Has ⟨r.types.size⟩ := by simp [hr', Has]
    refine ⟨_, r', hmade, hstep, ?sound, by simp [hr']⟩
    refine hs.later hstep.toLater (fun i d hd ↦ ?types) (fun _ _ h ↦ ?methods) (fun _ t ht ↦ ?names)
      (fun _ t ht ↦ ?hosts) (fun _ _ h ↦ ?bases) (fun _ _ h ↦ ?declared) (fun _ _ h ↦ ?instances)
    case types =>
      simp only [hr'] at hd
      rcases getElem?_push_cases hd with hold | rfl
      · exact .inl hold
      · exact .inr ⟨fun _ h ↦ (nomatch h), fun _ h ↦ (nomatch h)⟩
    case names =>
      simp only [hr'] at ht
      exact (getElem?_insertIfNew_cases ht).elim .inl fun heq ↦ .inr (heq ▸ hmadeThere)
    case hosts =>
      simp only [hr'] at ht
      exact (getElem?_insert_cases ht).elim .inl fun heq ↦ .inr (heq.2 ▸ hmadeThere)
    all_goals exact .inl (by rwa [hr'] at h)

theorem safe_ofHostType (type : HostType) :
    Safe Spells r₀ (ofHostType type) fun t r ↦ r.Has t :=
  .of_ok fun _ _ hs ↦
    let ⟨t, r', hmade, hstep, hs', hknown⟩ := ofHostType_ok hs type
    ⟨t, r', hmade, hstep, hs', hs'.hosts _ _ hknown⟩

theorem settles_definedType (id : ModuleId) (token : Token) :
    Settles z Spells r₀ (definedType id token) (definedType id token) fun t r ↦ r.Has t := by
  refine .ask_bind (fun r _ hlast ↦ by rw [hlast.definitions]) fun r _ hs ↦ ?_
  cases hknown : r.definitions[Reference.mk id token]? with
  | none => exact .throw _
  | some t => exact .pure fun r' hl _ ↦ hl.has (hs.definitions _ _ hknown)

/-! ### Names -/

theorem get_bind_apply {f : Registry → RegistryM β} :
    (MonadState.get >>= f : RegistryM β) r = f r r := rfl

theorem lookup?_of_known {name : String} {scope : Option String} {t : TypeId}
    (h : (r.inScope? name scope <|> r.names[name]?) = some t) :
    lookup? name scope r = .ok (some t) r := by
  rw [lookup?, get_bind_apply, h]
  rfl

theorem lookup?_of_host {name : String} {scope : Option String} {type : HostType} {t : TypeId}
    (h : (r.inScope? name scope <|> r.names[name]?) = none)
    (hfind : HostLibrary.find? r.host.toList name scope = some type)
    (hmade : ofHostType type r = .ok t r') : lookup? name scope r = .ok (some t) r' := by
  rw [lookup?, get_bind_apply, h, hfind]
  exact bind_of_ok hmade

theorem lookup?_of_none {name : String} {scope : Option String}
    (h : (r.inScope? name scope <|> r.names[name]?) = none)
    (hfind : HostLibrary.find? r.host.toList name scope = none) :
    lookup? name scope r = .ok none r := by
  rw [lookup?, get_bind_apply, h, hfind]
  rfl

theorem fullName_of_find? {modules : List HostModule} {name : String} {scope : Option String}
    {type : HostType} (h : HostLibrary.find? modules name scope = some type) :
    type.fullName = name := by
  obtain ⟨m, -, hm⟩ := List.exists_of_findSome?_eq_some h
  have hname := List.find?_some hm
  exact eq_of_beq hname

theorem mem_of_find? {modules : List HostModule} {name : String} {scope : Option String}
    {type : HostType} (h : HostLibrary.find? modules name scope = some type) :
    ∃ m ∈ modules, type ∈ m.types := by
  obtain ⟨m, hm, hfound⟩ := List.exists_of_findSome?_eq_some h
  refine ⟨m, ?_, List.mem_reverse.mp (List.mem_of_find?_eq_some hfound)⟩
  rcases List.mem_append.mp hm with hnear | hmem
  · cases scope with
    | none => cases hnear
    | some s => exact (List.mem_filter.mp hnear).1
  · exact hmem

/-- The type goes by a plain name, or it is a host type in use of that full name. -/
def Spelled (r : Registry) (name : String) (t : TypeId) : Prop :=
  r.names[name]? = some t ∨ ∃ scope, r.inScope? name scope = some t

theorem Spelled.named {name : String} {t : TypeId} (h : r.Spelled name t) (hl : r.Later z)
    (hnames : z.Unambiguous) : z.names[name]? = some t := by
  rcases h with hnamed | ⟨scope, hscope⟩
  · exact hl.names _ _ hnamed
  · exact hnames.hosts name scope t (hl.inScope? hscope)

theorem Unambiguous.lookup? (h : r.Unambiguous) {name : String} {t : TypeId}
    (ht : r.names[name]? = some t) (scope : Option String) :
    Registry.lookup? name scope r = .ok (some t) r := by
  refine lookup?_of_known ?_
  cases hscope : r.inScope? name scope with
  | none => exact ht
  | some t' => exact (h.hosts name scope t' hscope).symm.trans ht

/-- A name that has no meaning yet has none in `z`, or the one under which it is known there. -/
theorem lookup?_of_absent (hl : r.Later z) (hnames : z.Unambiguous) {name : String}
    {scope : Option String} (hfind : HostLibrary.find? r.host.toList name scope = none) :
    lookup? name scope z = .ok none z ∨
      ∃ t, z.names[name]? = some t ∧ lookup? name scope z = .ok (some t) z := by
  cases hknown : z.names[name]? with
  | some t => exact .inr ⟨t, rfl, hnames.lookup? hknown scope⟩
  | none =>
    refine .inl (lookup?_of_none ?_ (hl.host ▸ hfind))
    cases hscope : z.inScope? name scope with
    | none => exact hknown
    | some t => rw [hnames.hosts name scope t hscope] at hknown; cases hknown

/-- A name is looked up among the types of the registry and then among those of the host. Both
answers stay. -/
theorem lookup?_ok (hs : r.Sound) (name : String) (scope : Option String) : ∃ found r',
    lookup? name scope r = .ok found r' ∧ r.Spells r' ∧ r'.Sound ∧
      (∀ t, found = some t → r'.Has t ∧ r'.Spelled name t) ∧
      (found = none → HostLibrary.find? r'.host.toList name scope = none) := by
  cases hknown : r.inScope? name scope <|> r.names[name]? with
  | some t =>
    refine ⟨some t, r, lookup?_of_known hknown, Forward.refl r, hs, fun t' ht' ↦ ?_, nofun⟩
    cases ht'
    cases hscope : r.inScope? name scope with
    | none =>
      rw [hscope] at hknown
      exact ⟨hs.names _ _ hknown, .inl hknown⟩
    | some t' =>
      rw [hscope] at hknown
      cases hknown
      cases scope with
      | none => cases hscope
      | some s => exact ⟨hs.hosts _ _ hscope, .inr ⟨some s, hscope⟩⟩
  | none =>
    cases hfind : HostLibrary.find? r.host.toList name scope with
    | none =>
      exact ⟨none, r, lookup?_of_none hknown hfind, Forward.refl r, hs, nofun, fun _ ↦ hfind⟩
    | some type =>
      obtain ⟨t, r', hmade, hstep, hs', hhost⟩ := ofHostType_ok hs type
      refine ⟨some t, r', lookup?_of_host hknown hfind hmade, hstep, hs', fun t' ht' ↦ ?_, nofun⟩
      cases ht'
      exact ⟨hs'.hosts _ _ hhost, .inr ⟨some type.moduleName, fullName_of_find? hfind ▸ hhost⟩⟩

/-- What is found has the name; what is not found is not a host type either. -/
theorem safe_lookup? (name : String) (scope : Option String) :
    Safe Spells r₀ (lookup? name scope) fun found r ↦
      (∀ t, found = some t → r.Has t ∧ r.Spelled name t) ∧
      (found = none → HostLibrary.find? r.host.toList name scope = none) :=
  .of_ok fun _ _ hs ↦ lookup?_ok hs name scope

/-- A simple name resolves to the type that it resolved to before. -/
theorem settles_resolveIn (name : String) (scope : Option String) :
    Settles z Spells r₀ (resolveIn name scope) (resolveIn name scope) fun t r ↦ r.Has t := by
  refine ⟨(safe_lookup? name scope).bind fun found r₁ _ _ hfound ↦ ?_, ?_⟩
  · cases found with
    | some t => exact .pure fun r hl _ ↦ hl.has (hfound.1 t rfl).1
    | none =>
      dsimp only
      split
      · refine (safe_lookup? _ scope).bind fun nested r₂ _ _ hnested ↦ ?_
        cases nested with
        | some t => exact .pure fun r hl _ ↦ hl.has (hnested.1 t rfl).1
        | none => exact .throw _
      · exact .throw _
  · intro r t r' hl hs hx hlast hnames
    obtain ⟨found, r₁, hlook, hrest⟩ := exists_of_bind hx
    have hfound := (safe_lookup? name scope).yields r found r₁ hl hs hlook
    obtain ⟨hstep, hs₁⟩ := (safe_lookup? name scope).ok hl hs hlook
    cases found with
    | some t' =>
      cases hrest
      have hnamed := (hfound.1 t rfl).2.named hlast hnames
      exact bind_of_ok (hnames.lookup? hnamed scope)
    | none =>
      -- the name was read again with pluses; in `z` it may have gained a meaning of its own
      cases hslash : name.any (· == '/') with
      | false =>
        simp only [hslash] at hrest
        cases hrest
      | true =>
        simp only [hslash, if_true] at hrest
        obtain ⟨nested, r₂, hlook₂, hrest₂⟩ := exists_of_bind hrest
        have hl₁ := hl.trans hstep.toLater
        have hnested := (safe_lookup? _ scope).yields r₁ nested r₂ hl₁ hs₁ hlook₂
        have hl₂ := ((safe_lookup? _ scope).ok (.refl r₁) hs₁ hlook₂).1.toLater
        cases nested with
        | none => cases hrest₂
        | some t' =>
          cases hrest₂
          have hmeant := (hnested.1 t rfl).2.named hlast hnames
          rcases lookup?_of_absent (hl₂.trans hlast) hnames (hfound.2 rfl) with
            habsent | ⟨t', hknown, hfound'⟩
          · refine (bind_of_ok habsent).trans ?_
            simp only [hslash, if_true]
            exact bind_of_ok (hnames.lookup? hmeant scope)
          · cases hnames.nested name t' t hknown hmeant
            exact bind_of_ok hfound'

theorem safe_resolveIn (name : String) (scope : Option String) :
    Safe Spells r₀ (resolveIn name scope) fun t r ↦ r.Has t :=
  (settles_resolveIn (z := r₀) name scope).toSafe

mutual

theorem safe_resolveParsed {r₀ : Registry} : (name : TypeName) →
    Safe Spells r₀ (resolveParsed name) fun t r ↦ r.Has t
  | .simple name scope => by
    unfold resolveParsed
    exact safe_resolveIn name scope
  | .array element rank => by
    unfold resolveParsed
    exact (safe_resolveParsed element).bind fun t _ _ _ ht ↦
      (settles_makeArray (z := r₀) rank ht).toSafe
  | .byRef inner => by
    unfold resolveParsed
    exact (safe_resolveParsed inner).bind fun t _ _ _ ht ↦
      (settles_makeByRef (z := r₀) ht).toSafe
  | .generic head args => by
    unfold resolveParsed
    exact (safe_resolveParsed head).bind fun t _ _ _ ht ↦
      (safe_resolveAllParsed args).bind fun ts _ hl _ hts ↦
        (settles_makeInstance (z := r₀) (hl.has ht) hts).toSafe

theorem safe_resolveAllParsed {r₀ : Registry} : (names : List TypeName) →
    Safe Spells r₀ (resolveAllParsed names) fun ts r ↦ ∀ t ∈ ts, r.Has t
  | [] => by
    unfold resolveAllParsed
    exact .pure fun _ _ _ ↦ List.forall_mem_nil _
  | name :: rest => by
    unfold resolveAllParsed
    exact (safe_resolveParsed name).bind fun t _ _ _ ht ↦
      (safe_resolveAllParsed rest).bind fun ts _ hl _ hts ↦
        .pure fun r hl' _ ↦ List.forall_mem_cons.mpr
          ⟨(hl.trans hl').has ht, fun t' ht' ↦ hl'.has (hts t' ht')⟩

end

theorem safe_resolve (name : String) : Safe Spells r₀ (resolve name) fun t r ↦ r.Has t := by
  refine .ask_bind fun r _ hs ↦ ?_
  split
  · next t hknown => exact .pure fun r' hl _ ↦ hl.has (hs.names _ _ hknown)
  · split
    · exact .throw _
    · exact (safe_resolveParsed _).bind fun t _ _ _ ht ↦ (safe_addName ht).bind fun _ _ hl _ _ ↦
        .pure fun r hl' _ ↦ (hl.trans hl').has ht

theorem safe_coreType (name : String) : Safe Spells r₀ (coreType name) fun t r ↦ r.Has t :=
  safe_resolveIn _ _

/-! ### Signatures -/

mutual

/-- A signature without parameters is the same in every context. -/
theorem resolveSignature_closed (home : ModuleId) (c c' : GenericContext) : (s : Signature) →
    s.isOpen = false → resolveSignature home c s = resolveSignature home c' s
  | .definition _, _ => by
    unfold resolveSignature
    rfl
  | .named _ _, _ => by
    unfold resolveSignature
    rfl
  | .parameter _, h => nomatch h
  | .byRef inner, h => by
    unfold resolveSignature
    rw [resolveSignature_closed home c c' inner h]
  | .array element rank, h => by
    unfold resolveSignature
    rw [resolveSignature_closed home c c' element h]
  | .instantiation head args, h => by
    have hboth : head.isOpen = false ∧ Signature.anyOpen args = false := Bool.or_eq_false_iff.mp h
    unfold resolveSignature
    rw [resolveSignature_closed home c c' head hboth.1,
      resolveArguments_closed home c c' args hboth.2]
  | .pointer _, _ => by
    unfold resolveSignature
    rfl
  | .functionPointer, _ => by
    unfold resolveSignature
    rfl

theorem resolveArguments_closed (home : ModuleId) (c c' : GenericContext) :
    (signatures : List Signature) → Signature.anyOpen signatures = false →
      resolveArguments home c signatures = resolveArguments home c' signatures
  | [], _ => by
    unfold resolveArguments
    rfl
  | s :: rest, h => by
    have hboth := Bool.or_eq_false_iff.mp (show (s.isOpen || Signature.anyOpen rest) = false from h)
    unfold resolveArguments
    rw [resolveSignature_closed home c c' s hboth.1, resolveArguments_closed home c c' rest hboth.2]

end

theorem Resolution.type?_make (t : TypeId) (fixed_ : Bool) :
    (Resolution.make t fixed_).type? = some t := by
  cases fixed_ <;> rfl

/-- The type that a signature was resolved to is there. -/
def Bears (r : Registry) (found : Resolution) : Prop := ∀ t, found.type? = some t → r.Has t

theorem bears_of_type? {found : Resolution} {t : TypeId} (hfound : found.type? = some t)
    (ht : r.Has t) : r.Bears found :=
  fun _ hu ↦ Option.some.inj (hfound.symm.trans hu) ▸ ht

theorem bears_unbound {name : String} : r.Bears (.unbound name) := nofun

theorem settles_wrapAround {wrap : TypeId → RegistryM TypeId} {found : Resolution} (closed : Bool)
    (hwrap : ∀ t, r₀.Has t → Settles z Spells r₀ (wrap t) (wrap t) fun t r ↦ r.Has t)
    (hfound : r₀.Bears found) :
    Settles z Spells r₀ (wrapAround wrap closed found) (wrapAround wrap closed found)
      fun found r ↦ r.Bears found := by
  cases found with
  | fixed t =>
    exact (hwrap t (hfound t rfl)).bind fun t' _ _ _ ht' ↦
      .pure fun _ hl _ ↦ bears_of_type? (Resolution.type?_make t' closed) (hl.has ht')
  | dependent t =>
    exact (hwrap t (hfound t rfl)).bind fun _ _ _ _ ht' ↦
      .pure fun _ hl _ ↦ bears_of_type? rfl (hl.has ht')
  | unbound name => exact .pure fun _ _ _ ↦ bears_unbound

mutual

/-- By recursion on the signature. -/
theorem settles_resolveSignature {r₀ : Registry} (home : ModuleId) {c : GenericContext}
    (hc : r₀.HasContext c) : (s : Signature) →
    Settles z Spells r₀ (resolveSignature home c s) (resolveSignature home c s)
      fun found r ↦ r.Bears found
  | .definition token => by
    unfold resolveSignature
    exact (settles_definedType home token).bind fun _ _ _ _ ht ↦
      .pure fun _ hl _ ↦ bears_of_type? rfl (hl.has ht)
  | .named name scope => by
    unfold resolveSignature
    exact (settles_resolveIn name scope).bind fun _ _ _ _ ht ↦
      .pure fun _ hl _ ↦ bears_of_type? rfl (hl.has ht)
  | .parameter name => by
    unfold resolveSignature
    refine .ask_bind (fun r hl hlast ↦ hlast.find?_eq (hl.hasContext hc) name) fun r hl hs ↦ ?_
    cases hfound : c.find? r name with
    | none => exact .pure fun _ _ _ ↦ bears_unbound
    | some t =>
      exact .pure fun _ hl' _ ↦
        bears_of_type? rfl (hl'.has ((hl.hasContext hc).find? hs hfound))
  | .byRef inner => by
    rw [resolveSignature_byRef]
    exact (settles_resolveSignature home hc inner).bind fun _ _ _ _ hfound ↦
      settles_wrapAround _ (fun _ ht ↦ settles_makeByRef ht) hfound
  | .array element rank => by
    rw [resolveSignature_array]
    exact (settles_resolveSignature home hc element).bind fun _ _ _ _ hfound ↦
      settles_wrapAround _ (fun _ ht ↦ settles_makeArray rank ht) hfound
  | .instantiation head args => by
    unfold resolveSignature
    refine (settles_resolveSignature home hc head).bind fun found _ hl _ hfound ↦ ?_
    cases found with
    | unbound name => exact .pure fun _ _ _ ↦ bears_unbound
    | fixed t | dependent t =>
      exact (settles_resolveArguments home (hl.hasContext hc) args).bind fun _ _ hl' _ hargs ↦
        (settles_makeInstance (hl'.has (hfound t rfl)) hargs).bind fun t' _ _ _ ht' ↦
          .pure fun _ hl'' _ ↦ bears_of_type? (Resolution.type?_make t' _) (hl''.has ht')
  | .pointer inner => by
    unfold resolveSignature
    exact .throw _
  | .functionPointer => by
    unfold resolveSignature
    exact .throw _

/-- Arguments are resolved in turn, so what is settled for one holds in the registry of the next. -/
theorem settles_resolveArguments {r₀ : Registry} (home : ModuleId) {c : GenericContext}
    (hc : r₀.HasContext c) : (signatures : List Signature) →
    Settles z Spells r₀ (resolveArguments home c signatures)
      (resolveArguments home c signatures) fun found r ↦ ∀ t ∈ found.1, r.Has t
  | [] => by
    unfold resolveArguments
    exact .pure fun _ _ _ ↦ List.forall_mem_nil _
  | s :: rest => by
    unfold resolveArguments
    refine (settles_resolveSignature home hc s).bind fun found r₁ hl _ hfound ↦ ?_
    have hrest (r₂ : Registry) (hl₂ : r₁.Later r₂) (first : TypeId × Bool) (ht : r₂.Has first.1) :
        Settles z Spells r₂
          (do
            let (ts, restFixed) ← resolveArguments home c rest
            return (first.1 :: ts, first.2 && restFixed))
          (do
            let (ts, restFixed) ← resolveArguments home c rest
            return (first.1 :: ts, first.2 && restFixed))
          fun found r ↦ ∀ t ∈ found.1, r.Has t :=
      (settles_resolveArguments home ((hl.trans hl₂).hasContext hc) rest).bind
        fun _ _ hl₃ _ hts ↦ .pure fun _ hl₄ _ ↦ List.forall_mem_cons.mpr
          ⟨(hl₃.trans hl₄).has ht, fun t ht ↦ hl₄.has (hts t ht)⟩
    cases found with
    | fixed t => exact hrest r₁ (.refl r₁) (t, true) (hfound t rfl)
    | dependent t => exact hrest r₁ (.refl r₁) (t, false) (hfound t rfl)
    | unbound name =>
      exact (settles_makeParameter name).bind fun t r₂ hl₂ _ ht ↦
        hrest r₂ hl₂ (t, false) ht

end

theorem Resolution.fixed_of_make {t t' : TypeId} {fixed_ : Bool}
    (h : Resolution.make t fixed_ = .fixed t') : fixed_ = true := by
  cases fixed_
  · cases h
  · rfl

theorem closed_of_wrapAround {wrap : TypeId → RegistryM TypeId} {closed : Bool} {found : Resolution}
    {t : TypeId} (h : wrapAround wrap closed found r = .ok (.fixed t) r') : closed = true := by
  cases found with
  | fixed t' =>
    obtain ⟨made, r₁, -, hlast⟩ := exists_of_bind h
    exact Resolution.fixed_of_make (EStateM.Result.ok.inj hlast).1
  | dependent t' =>
    obtain ⟨made, r₁, -, hlast⟩ := exists_of_bind h
    cases hlast
  | unbound name => cases h

/-- Only a signature without parameters counts as the same in every context. -/
theorem isOpen_of_fixed {home : ModuleId} {c : GenericContext} {s : Signature} {t : TypeId}
    (h : resolveSignature home c s r = .ok (.fixed t) r') : s.isOpen = false := by
  cases s with
  | definition token => rfl
  | named name scope => rfl
  | parameter name =>
    unfold resolveSignature at h
    rw [ask_bind] at h
    cases hfound : c.find? r name <;> rw [hfound] at h <;> cases h
  | byRef inner =>
    rw [resolveSignature_byRef] at h
    obtain ⟨found, r₁, -, hrest⟩ := exists_of_bind h
    exact Bool.not_eq_true' _ ▸ closed_of_wrapAround hrest
  | array element rank =>
    rw [resolveSignature_array] at h
    obtain ⟨found, r₁, -, hrest⟩ := exists_of_bind h
    exact Bool.not_eq_true' _ ▸ closed_of_wrapAround hrest
  | instantiation head args =>
    unfold resolveSignature at h
    obtain ⟨found, r₁, -, hrest⟩ := exists_of_bind h
    cases found with
    | fixed t' | dependent t' =>
      obtain ⟨⟨args', fixed_⟩, r₂, -, hrest⟩ := exists_of_bind hrest
      obtain ⟨made, r₃, -, hlast⟩ := exists_of_bind hrest
      have hclosed := Resolution.fixed_of_make (EStateM.Result.ok.inj hlast).1
      exact Bool.not_eq_true' _ ▸ (Bool.and_eq_true_iff.mp hclosed).2
    | unbound name => cases hrest
  | pointer inner =>
    unfold resolveSignature at h
    cases h
  | functionPointer =>
    unfold resolveSignature at h
    cases h

/-- Arguments that turned out fixed have no parameter in them. -/
theorem anyOpen_of_fixed {home : ModuleId} {c : GenericContext} {signatures : List Signature}
    {ts : List TypeId} (h : resolveArguments home c signatures r = .ok (ts, true) r') :
    Signature.anyOpen signatures = false := by
  induction signatures generalizing r ts r' with
  | nil => rfl
  | cons s rest ih =>
    unfold resolveArguments at h
    obtain ⟨found, r₁, hfound, hrest⟩ := exists_of_bind h
    cases found with
    | fixed t =>
      change (resolveArguments home c rest >>= _) r₁ = _ at hrest
      obtain ⟨⟨ts', restFixed⟩, r₂, hargs, hlast⟩ := exists_of_bind hrest
      cases restFixed with
      | true => exact Bool.or_eq_false_iff.mpr ⟨isOpen_of_fixed hfound, ih hargs⟩
      | false => cases hlast
    | dependent t =>
      change (resolveArguments home c rest >>= _) r₁ = _ at hrest
      obtain ⟨⟨ts', restFixed⟩, r₂, -, hlast⟩ := exists_of_bind hrest
      cases hlast
    | unbound name =>
      obtain ⟨t, r₂, -, hrest⟩ := exists_of_bind hrest
      change (resolveArguments home c rest >>= _) r₂ = _ at hrest
      obtain ⟨⟨ts', restFixed⟩, r₃, -, hlast⟩ := exists_of_bind hrest
      cases hlast

end Registry

/-- The parameter that a signature is built on, if it is built on one. -/
def Signature.root? : Signature → Option String
  | .parameter name => some name
  | .byRef inner => inner.root?
  | .array element _ => element.root?
  | .instantiation head _ => head.root?
  | .definition _ | .named .. | .pointer _ | .functionPointer => none

namespace Registry

variable {α β γ : Type} {R : Registry → Registry → Prop} {r r' r'' r₀ z : Registry}

/-- A signature on a parameter that the context does not bind has no type there. -/
theorem resolveSignature_unbound {home : ModuleId} {c : GenericContext} {name : String}
    (hfree : c.find? r name = none) : {s : Signature} → s.root? = some name →
      resolveSignature home c s r = .ok (.unbound name) r
  | .parameter name', h => by
    cases h
    unfold resolveSignature
    rw [ask_bind, hfree]
    rfl
  | .byRef inner, h => by
    rw [resolveSignature_byRef]
    exact (bind_of_ok (resolveSignature_unbound hfree (s := inner) h)).trans rfl
  | .array element rank, h => by
    rw [resolveSignature_array]
    exact (bind_of_ok (resolveSignature_unbound hfree (s := element) h)).trans rfl
  | .instantiation head args, h => by
    unfold resolveSignature
    exact (bind_of_ok (resolveSignature_unbound hfree (s := head) h)).trans rfl

/-- A signature on a parameter that nothing binds is resolved like the parameter, whatever is around
it. -/
theorem resolveType_of_unbound {home : ModuleId} {c : GenericContext} {s : Signature}
    {name : String}
    (hfree : c.find? r name = none) (hroot : s.root? = some name) :
    resolveType home c s r = makeParameter name r := by
  rw [resolveType, bind_of_ok (resolveSignature_unbound hfree hroot)]

/-- Building a type around another one gives a type. -/
theorem wrap_ne_unbound {x : RegistryM TypeId} {wrap : TypeId → Resolution} {name : String}
    (hwrap : ∀ t, wrap t ≠ .unbound name) :
    (x >>= fun t ↦ Pure.pure (wrap t)) r ≠ .ok (.unbound name) r' := by
  intro h
  obtain ⟨t, r₁, -, hlast⟩ := exists_of_bind h
  exact hwrap t (EStateM.Result.ok.inj hlast).1

theorem make_ne_unbound {t : TypeId} {fixed_ : Bool} {name : String} :
    Resolution.make t fixed_ ≠ .unbound name := by
  cases fixed_ <;> exact Resolution.noConfusion

theorem eq_of_wrapAround {wrap : TypeId → RegistryM TypeId} {closed : Bool} {found : Resolution}
    {name : String} (h : wrapAround wrap closed found r = .ok (.unbound name) r') :
    found = .unbound name ∧ r' = r := by
  cases found with
  | fixed t => exact absurd h (wrap_ne_unbound fun _ ↦ make_ne_unbound)
  | dependent t => exact absurd h (wrap_ne_unbound fun _ ↦ Resolution.noConfusion)
  | unbound name' =>
    cases h
    exact ⟨rfl, rfl⟩

/-- What comes out unbound is a parameter that the context does not know, with nothing around it. -/
theorem root?_of_unbound {home : ModuleId} {c : GenericContext} {name : String} :
    {s : Signature} → resolveSignature home c s r = .ok (.unbound name) r' →
      s.root? = some name ∧ c.find? r name = none
  | .definition token, h => by
    unfold resolveSignature at h
    obtain ⟨t, r₁, -, hlast⟩ := exists_of_bind h
    cases hlast
  | .named spelled scope, h => by
    unfold resolveSignature at h
    obtain ⟨t, r₁, -, hlast⟩ := exists_of_bind h
    cases hlast
  | .parameter name', h => by
    unfold resolveSignature at h
    rw [ask_bind] at h
    cases hfound : c.find? r name' <;> rw [hfound] at h <;> cases h
    exact ⟨rfl, hfound⟩
  | .byRef inner, h => by
    rw [resolveSignature_byRef] at h
    obtain ⟨found, r₁, hfound, hrest⟩ := exists_of_bind h
    obtain ⟨rfl, rfl⟩ := eq_of_wrapAround hrest
    exact root?_of_unbound (s := inner) hfound
  | .array element rank, h => by
    rw [resolveSignature_array] at h
    obtain ⟨found, r₁, hfound, hrest⟩ := exists_of_bind h
    obtain ⟨rfl, rfl⟩ := eq_of_wrapAround hrest
    exact root?_of_unbound (s := element) hfound
  | .instantiation head args, h => by
    unfold resolveSignature at h
    obtain ⟨found, r₁, hfound, hrest⟩ := exists_of_bind h
    cases found with
    | fixed t | dependent t =>
      obtain ⟨args', r₂, -, hrest⟩ := exists_of_bind hrest
      exact absurd hrest (wrap_ne_unbound fun _ ↦ make_ne_unbound)
    | unbound name' =>
      cases hrest
      exact root?_of_unbound (s := head) hfound
  | .pointer inner, h => by
    unfold resolveSignature at h
    cases h
  | .functionPointer, h => by
    unfold resolveSignature at h
    cases h

end Registry

end ManagedMachine
