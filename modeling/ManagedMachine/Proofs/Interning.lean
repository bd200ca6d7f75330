import ManagedMachine.Intern
import Mathlib

/-!
# Interned strings

The strings of one hash lie under the keys with the counters from zero on, without a gap and in the
order in which they were first interned. That is why a search may stop at the first key that is
free, and why it always stops: `InternTable.Filed` is this property, and interning keeps it as long
as fewer strings share a hash than there are counters. `InternTable.Faithful` is what follows for
the users of a table.
-/

set_option autoImplicit false
set_option relaxedAutoImplicit false

namespace ManagedMachine

namespace InternTable

/-! ### Keys -/

/-- A key is the counter and the hash side by side. -/
theorem toNat_key (counter hash : UInt32) :
    (key counter hash).toNat = counter.toNat * 2 ^ 32 + hash.toNat := by
  have hc := counter.toNat_lt
  have hh := hash.toNat_lt
  have hshift : (counter.toUInt64 <<< 32).toNat = counter.toNat <<< 32 := by
    rw [UInt64.toNat_shiftLeft, Nat.mod_eq_of_lt]
    · rfl
    · change counter.toNat <<< 32 < 2 ^ 64
      rw [Nat.shiftLeft_eq]
      omega
  rw [key, UInt64.toNat_or, hshift, UInt32.toNat_toUInt64, ← Nat.shiftLeft_add_eq_or_of_lt hh,
    Nat.shiftLeft_eq]

theorem toUInt32_key (counter hash : UInt32) : (key counter hash).toUInt32 = hash := by
  apply UInt32.toNat_inj.mp
  have hh := hash.toNat_lt
  rw [UInt64.toNat_toUInt32, toNat_key]
  omega

theorem key_inj {c c' h h' : UInt32} : key c h = key c' h' ↔ c = c' ∧ h = h' := by
  refine ⟨fun heq ↦ ?_, fun ⟨hc, hh⟩ ↦ by rw [hc, hh]⟩
  have hhash : h = h' := by rw [← toUInt32_key c h, heq, toUInt32_key]
  have hnat := congrArg UInt64.toNat heq
  rw [toNat_key, toNat_key, hhash] at hnat
  exact ⟨UInt32.toNat_inj.mp (by omega), hhash⟩

theorem exists_key (k : UInt64) : ∃ counter hash, k = key counter hash := by
  have hk := k.toNat_lt
  refine ⟨.ofNat (k.toNat / 2 ^ 32), k.toUInt32, UInt64.toNat_inj.mp ?_⟩
  rw [toNat_key, UInt64.toNat_toUInt32, UInt32.toNat_ofNat']
  omega

/-! ### Histories -/

/-- A call on a table. -/
inductive Call where
  | intern (s : String)
  | get (k : UInt64)

/-- The text that the call tells the table, if it does. -/
def Call.text? : Call → Option String
  | intern s => some s
  | get _ => none

/-- The table after one call. -/
def step (t : InternTable) : Call → InternTable
  | .intern s => (t.intern s).2
  | .get _ => t

/-- The table after some calls on an empty one. -/
def after (hash : String → UInt32) (calls : List Call) : InternTable :=
  calls.foldl step (empty hash)

/-- The interned strings of one hash, each where it was interned first. -/
def told (hash : String → UInt32) (calls : List Call) (h : UInt32) : List String :=
  ((calls.filterMap Call.text?).filter fun s ↦ hash s == h).eraseDups

variable {hash : String → UInt32} {calls : List Call} {s : String} {h : UInt32} {t : InternTable}

/-- The texts of one hash that were interned. -/
theorem mem_told : s ∈ told hash calls h ↔ .intern s ∈ calls ∧ hash s = h := by
  simp only [told, List.mem_eraseDups, List.mem_filter, List.mem_filterMap, beq_iff_eq]
  refine and_congr_left fun _ ↦ ⟨?_, fun hs ↦ ⟨_, hs, rfl⟩⟩
  rintro ⟨call, hmem, htext⟩
  cases call with
  | intern s' =>
    cases htext
    exact hmem
  | get k => cases htext

theorem told_get (hash : String → UInt32) (calls : List Call) (k : UInt64) :
    told hash (calls ++ [.get k]) = told hash calls := by
  funext h
  simp only [told, List.filterMap_append, List.filterMap_cons, Call.text?, List.filterMap_nil,
    List.append_nil]

/-- A string that is interned comes last if it was not told before. -/
theorem told_intern : told hash (calls ++ [.intern s]) h =
    if hash s = h ∧ s ∉ told hash calls h then told hash calls h ++ [s] else told hash calls h := by
  have hmem : s ∈ (calls.filterMap Call.text?).filter (fun s ↦ hash s == h) ↔
      s ∈ told hash calls h := List.mem_eraseDups.symm
  have happend : told hash (calls ++ [.intern s]) h = told hash calls h ++
      (([s].filter fun s ↦ hash s == h).removeAll
        ((calls.filterMap Call.text?).filter fun s ↦ hash s == h)).eraseDups := by
    simp only [told, List.filterMap_append, List.filterMap_cons, Call.text?, List.filterMap_nil,
      List.filter_append, List.eraseDups_append]
  rw [happend]
  by_cases hs : hash s = h
  · have hone : [s].filter (fun s ↦ hash s == h) = [s] := by simp [hs]
    rw [hone, List.removeAll]
    by_cases hold : s ∈ told hash calls h
    · rw [if_neg fun hnew ↦ hnew.2 hold, List.filter_cons_of_neg (by simpa using hmem.mpr hold)]
      exact List.append_nil _
    · rw [if_pos ⟨hs, hold⟩, List.filter_cons_of_pos (by simpa only [List.elem_eq_mem,
        Bool.not_eq_true', decide_eq_false_iff_not] using mt hmem.mp hold)]
      rfl
  · have hnone : [s].filter (fun s ↦ hash s == h) = [] := by simp [hs]
    rw [hnone, if_neg fun hnew ↦ hs hnew.1]
    exact List.append_nil _

theorem told_earlier (earlier later : List Call) :
    told hash earlier h <+: told hash (earlier ++ later) h := by
  simp only [told, List.filterMap_append, List.filter_append, List.eraseDups_append]
  exact List.prefix_append _ _

/-- Each text is listed once, however often it was interned. -/
theorem nodup_told (hash : String → UInt32) (calls : List Call) (h : UInt32) :
    (told hash calls h).Nodup := by
  induction calls using List.reverseRecOn with
  | nil => exact List.nodup_nil
  | append_singleton calls call ih =>
    cases call with
    | get k => exact (told_get hash calls k).symm ▸ ih
    | intern s =>
      rw [told_intern]
      split
      · next hnew => exact List.concat_eq_append ▸ ih.concat hnew.2
      · exact ih

theorem length_told_le (hash : String → UInt32) (calls : List Call) (h : UInt32) :
    (told hash calls h).length ≤ calls.length := by
  refine (List.Subperm.length_le ?_).trans (List.length_filterMap_le Call.text? calls)
  exact (nodup_told hash calls h).subperm fun s hs ↦
    List.mem_filterMap.mpr ⟨_, (mem_told.mp hs).1, rfl⟩

/-! ### Searches -/

/-- The search for the place of a string, from a counter on: it ends at the first key that is free
or holds the string. -/
inductive Search (t : InternTable) (s : String) : UInt32 → UInt64 → Prop
  | free {c : UInt32} (hfree : t.get? (key c (t.hash s)) = none) : Search t s c (key c (t.hash s))
  | held {c : UInt32} (hheld : t.get? (key c (t.hash s)) = some s) : Search t s c (key c (t.hash s))
  | next {c : UInt32} {k : UInt64} {other : String}
      (hother : t.get? (key c (t.hash s)) = some other) (hne : other ≠ s)
      (hnext : Search t s (c + 1) k) : Search t s c k

/-- The strings of each hash fill the counters from zero on. -/
structure Filed (t : InternTable) (held : UInt32 → List String) : Prop where
  get (c h : UInt32) : t.get? (key c h) = (held h)[c.toNat]?
  hash {h : UInt32} {s : String} : s ∈ held h → t.hash s = h
  nodup (h : UInt32) : (held h).Nodup
  few (h : UInt32) : (held h).length < 2 ^ 32
  room (h : UInt32) : (held h).length ≤ t.size

/-- The key of a string, or the one that it would get. -/
def place (hash : String → UInt32) (held : UInt32 → List String) (s : String) : UInt64 :=
  key (.ofNat ((held (hash s)).idxOf s)) (hash s)

namespace Filed

variable {held : UInt32 → List String}

theorem toNat_idxOf (hf : t.Filed held) (s : String) (h : UInt32) :
    (UInt32.ofNat ((held h).idxOf s)).toNat = (held h).idxOf s :=
  (UInt32.toNat_ofNat' ..).trans (Nat.mod_eq_of_lt (List.idxOf_le_length.trans_lt (hf.few h)))

theorem place_eq (hf : t.Filed held) {c : UInt32} (hc : c.toNat = (held (t.hash s)).idxOf s) :
    place t.hash held s = key c (t.hash s) := by
  rw [place, key_inj]
  exact ⟨UInt32.toNat_inj.mp ((hf.toNat_idxOf s _).trans hc.symm), rfl⟩

theorem get_place (hf : t.Filed held) (s : String) :
    t.get? (place t.hash held s) = if s ∈ held (t.hash s) then some s else none := by
  rw [place, hf.get, hf.toNat_idxOf]
  split
  · next hs => exact List.getElem?_idxOf hs
  · next hs => rw [List.idxOf_eq_length hs, List.getElem?_eq_none (Nat.le_refl _)]

/-- Every search ends at the place of its string, and so does one with so many steps. -/
theorem search (hf : t.Filed held) (s : String) (steps : Nat) (c : UInt32)
    (hc : c.toNat ≤ (held (t.hash s)).idxOf s)
    (hsteps : (held (t.hash s)).idxOf s ≤ c.toNat + steps) :
    t.Search s c (place t.hash held s) ∧
      t.probe s (t.hash s) c steps = place t.hash held s := by
  have hplace := hf.get_place s
  induction steps generalizing c with
  | zero =>
    rw [hf.place_eq (c := c) (by omega)] at hplace ⊢
    refine ⟨?_, rfl⟩
    split at hplace
    · exact .held hplace
    · exact .free hplace
  | succ steps ih =>
    rcases Nat.lt_or_eq_of_le hc with hlt | heq
    · have hlength := hlt.trans_le List.idxOf_le_length
      have hsucc : (c + 1).toNat = c.toNat + 1 := by
        have hfew := hf.few (t.hash s)
        rw [UInt32.toNat_add, UInt32.toNat_one, Nat.mod_eq_of_lt (by omega)]
      have hother : (held (t.hash s))[c.toNat] ≠ s := fun hother ↦ by
        have hfirst := (hf.nodup (t.hash s)).idxOf_getElem c.toNat hlength
        rw [hother] at hfirst
        omega
      have hentry : t.entries[key c (t.hash s)]? = some (held (t.hash s))[c.toNat] :=
        (hf.get c (t.hash s)).trans (List.getElem?_eq_getElem hlength)
      obtain ⟨hsearch, hprobe⟩ := ih (c + 1) (by omega) (by omega)
      refine ⟨.next hentry hother hsearch, ?_⟩
      rw [probe, hentry]
      dsimp only
      rw [if_neg (by simpa using hother), hprobe]
    · rw [hf.place_eq heq] at hplace ⊢
      split at hplace
      · have hentry : t.entries[key c (t.hash s)]? = some s := hplace
        exact ⟨.held hplace, by simp only [probe, hentry, beq_self_eq_true, if_true]⟩
      · have hentry : t.entries[key c (t.hash s)]? = none := hplace
        exact ⟨.free hplace, by simp only [probe, hentry]⟩

theorem keyFor_eq (hf : t.Filed held) (s : String) : t.keyFor s = place t.hash held s := by
  refine (hf.search s (t.entries.size + 1) 0 (Nat.zero_le _) ?_).2
  have hroom : (held (t.hash s)).length ≤ t.entries.size := hf.room _
  exact (List.idxOf_le_length.trans hroom).trans (by simp)

/-! ### Interning -/

theorem get_intern (hf : t.Filed held) (s : String) (k : UInt64) : (t.intern s).2.get? k =
    if k = place t.hash held s then some s else t.get? k := by
  have hplace := hf.get_place s
  unfold get? at hplace
  simp only [intern, get?, hf.keyFor_eq, Std.HashMap.getElem?_insertIfNew,
    Std.HashMap.mem_iff_isSome_getElem?, hplace, beq_iff_eq, eq_comm (a := k)]
  by_cases hk : place t.hash held s = k
  · subst hk
    by_cases hs : s ∈ held (t.hash s) <;> simp [hs, hplace]
  · simp [hk]

theorem size_intern (hf : t.Filed held) (s : String) : (t.intern s).2.size =
    if s ∈ held (t.hash s) then t.size else t.size + 1 := by
  have hplace := hf.get_place s
  unfold get? at hplace
  simp only [intern, size, hf.keyFor_eq, Std.HashMap.size_insertIfNew,
    Std.HashMap.mem_iff_isSome_getElem?, hplace]
  by_cases hs : s ∈ held (t.hash s) <;> simp [hs]

/-- A new string gets the next counter of its hash. -/
theorem intern (hf : t.Filed held) (s : String) {held' : UInt32 → List String}
    (hheld : ∀ h, held' h = if t.hash s = h ∧ s ∉ held h then held h ++ [s] else held h)
    (hfew : ∀ h, (held' h).length < 2 ^ 32) : (t.intern s).2.Filed held' where
  get c h := by
    rw [hf.get_intern, hheld]
    by_cases hplace : key c h = place t.hash held s
    · obtain ⟨hc, rfl⟩ := key_inj.mp (hplace.trans rfl)
      rw [if_pos hplace, hc, hf.toNat_idxOf]
      by_cases hs : s ∈ held (t.hash s)
      · rw [if_neg fun hnew ↦ hnew.2 hs, List.getElem?_idxOf hs]
      · rw [if_pos ⟨rfl, hs⟩, List.idxOf_eq_length hs, List.getElem?_concat_length]
    · rw [if_neg hplace, hf.get]
      split
      · next hnew =>
        obtain ⟨rfl, hs⟩ := hnew
        rw [List.getElem?_append]
        split
        · rfl
        · next hlength =>
          have hne : c.toNat ≠ (held (t.hash s)).length := fun heq ↦
            hplace (hf.place_eq (heq.trans (List.idxOf_eq_length hs).symm)).symm
          rw [List.getElem?_eq_none (by omega),
            List.getElem?_eq_none (by rw [List.length_singleton]; omega)]
      · rfl
  hash {h s'} hs' := by
    rw [hheld] at hs'
    split at hs'
    · next hnew =>
      rcases List.mem_append.mp hs' with hs' | hs'
      · exact hf.hash hs'
      · exact List.mem_singleton.mp hs' ▸ hnew.1
    · exact hf.hash hs'
  nodup h := by
    rw [hheld]
    split
    · next hnew => exact List.concat_eq_append ▸ (hf.nodup h).concat hnew.2
    · exact hf.nodup h
  few := hfew
  room h := by
    have hroom := hf.room h
    rw [hheld, hf.size_intern]
    split
    · next hnew =>
      rw [hnew.1, if_neg hnew.2, List.length_append, List.length_singleton]
      omega
    · split <;> omega

/-- Nothing has been interned yet. -/
theorem empty (hash : String → UInt32) : (InternTable.empty hash).Filed fun _ ↦ [] where
  get c h := Std.HashMap.getElem?_empty
  hash hs := by cases hs
  nodup _ := List.nodup_nil
  few _ := by decide
  room _ := Nat.zero_le _

end Filed

theorem hash_after (hash : String → UInt32) (calls : List Call) :
    (after hash calls).hash = hash := by
  induction calls using List.reverseRecOn with
  | nil => rfl
  | append_singleton calls call ih =>
    rw [after, List.foldl_append]
    cases call <;> exact ih

theorem after_append (earlier later : List Call) :
    after hash (earlier ++ later) = later.foldl step (after hash earlier) := List.foldl_append

/-- By induction on the calls. -/
theorem filed_after (calls : List Call) (hfew : ∀ h, (told hash calls h).length < 2 ^ 32) :
    (after hash calls).Filed (told hash calls) := by
  induction calls using List.reverseRecOn with
  | nil => exact .empty hash
  | append_singleton calls call ih =>
    have hbefore := ih fun h ↦ (told_earlier calls [call]).length_le.trans_lt (hfew h)
    rw [after_append]
    cases call with
    | get k => exact (told_get hash calls k).symm ▸ hbefore
    | intern s =>
      refine hbefore.intern s (fun h ↦ ?_) hfew
      rw [told_intern, hash_after]

/-! ### What a table answers -/

/-- The table answers as if it were a list of the strings of each hash. -/
structure Faithful (hash : String → UInt32) (calls : List Call) : Prop where
  /-- The strings of a hash have the counters from zero on, and nothing else is held. -/
  get (c h : UInt32) : (after hash calls).get? (key c h) = (told hash calls h)[c.toNat]?
  keys (k : UInt64) : ∃ c h, k = key c h
  /-- A search ends, however long it may take, and does so at the key that is returned. -/
  search (earlier later : List Call) (s : String) : calls = earlier ++ .intern s :: later →
    (after hash earlier).Search s 0 ((after hash earlier).intern s).1
  low (earlier later : List Call) (s : String) : calls = earlier ++ .intern s :: later →
    ((after hash earlier).intern s).1.toUInt32 = hash s
  /-- The key means the string at every later moment. -/
  held (earlier later rest : List Call) (s : String) :
    calls = earlier ++ .intern s :: (later ++ rest) →
    (after hash (earlier ++ .intern s :: later)).get? ((after hash earlier).intern s).1 = some s
  /-- Keys are the same exactly for equal strings, whenever these are interned. -/
  same (earlier later earlier' later' : List Call) (s s' : String) :
    calls = earlier ++ .intern s :: later → calls = earlier' ++ .intern s' :: later' →
    (((after hash earlier).intern s).1 = ((after hash earlier').intern s').1 ↔ s = s')
  again (earlier later : List Call) (s : String) : calls = earlier ++ .intern s :: later →
    .intern s ∈ earlier → ((after hash earlier).intern s).2.size = (after hash earlier).size ∧
      ∀ k, ((after hash earlier).intern s).2.get? k = (after hash earlier).get? k

theorem filed_earlier {earlier later : List Call}
    (hfew : ∀ h, (told hash (earlier ++ later) h).length < 2 ^ 32) :
    (after hash earlier).Filed (told hash earlier) :=
  filed_after earlier fun h ↦ (told_earlier earlier later).length_le.trans_lt (hfew h)

/-- A string has its counter for good. -/
theorem idxOf_told (earlier later : List Call) :
    (told hash (earlier ++ .intern s :: later) (hash s)).idxOf s =
      (told hash earlier (hash s)).idxOf s := by
  obtain ⟨rest, hrest⟩ : told hash (earlier ++ [.intern s]) (hash s) <+: _ :=
    told_earlier (earlier ++ [.intern s]) later
  rw [List.append_assoc, List.singleton_append] at hrest
  rw [← hrest, told_intern]
  by_cases hs : s ∈ told hash earlier (hash s)
  · rw [if_neg fun hnew ↦ hnew.2 hs, List.idxOf_append_of_mem hs]
  · rw [if_pos ⟨rfl, hs⟩, List.append_assoc, List.idxOf_append_of_notMem hs, List.singleton_append,
      List.idxOf_cons_self, List.idxOf_eq_length hs]
    rfl

/-- The key that a string gets is the one that it has in the end. -/
theorem intern_eq_place {earlier later : List Call}
    (hfew : ∀ h, (told hash (earlier ++ .intern s :: later) h).length < 2 ^ 32) :
    ((after hash earlier).intern s).1 =
      place hash (told hash (earlier ++ .intern s :: later)) s := by
  have hkey := (filed_earlier hfew).keyFor_eq s
  rw [hash_after] at hkey
  rw [place, idxOf_told]
  exact hkey

/-- What users of a table may rely on, from the way in which texts are filed. -/
theorem faithful (hfew : ∀ h, (told hash calls h).length < 2 ^ 32) : Faithful hash calls where
  get := (filed_after calls hfew).get
  keys := exists_key
  search earlier later s hcalls := by
    subst hcalls
    have hf := filed_earlier hfew
    have hkey : ((after hash earlier).intern s).1 = _ := hf.keyFor_eq s
    rw [hkey]
    exact (hf.search s _ 0 (Nat.zero_le _) (Nat.le_add_left _ 0)).1
  low earlier later s hcalls := by
    subst hcalls
    rw [intern_eq_place hfew, place, toUInt32_key]
  held earlier later rest s hcalls := by
    rw [← List.cons_append, ← List.append_assoc] at hcalls
    subst hcalls
    have hfew' (h : UInt32) : (told hash (earlier ++ .intern s :: later) h).length < 2 ^ 32 :=
      (told_earlier _ rest).length_le.trans_lt (hfew h)
    have hget := (filed_after _ hfew').get_place s
    rw [hash_after, if_pos (mem_told.mpr ⟨List.mem_append_right _ List.mem_cons_self, rfl⟩)] at hget
    rw [intern_eq_place hfew', hget]
  same earlier later earlier' later' s s' hcalls hcalls' := by
    have hplace : ((after hash earlier).intern s).1 = place hash (told hash calls) s := by
      subst hcalls
      exact intern_eq_place hfew
    have hplace' : ((after hash earlier').intern s').1 = place hash (told hash calls) s' := by
      subst hcalls'
      exact intern_eq_place hfew
    have hmem : s ∈ told hash calls (hash s) :=
      mem_told.mpr ⟨hcalls ▸ List.mem_append_right _ List.mem_cons_self, rfl⟩
    have hmem' : s' ∈ told hash calls (hash s') :=
      mem_told.mpr ⟨hcalls' ▸ List.mem_append_right _ List.mem_cons_self, rfl⟩
    have hget := (filed_after calls hfew).get_place s
    have hget' := (filed_after calls hfew).get_place s'
    rw [hash_after, if_pos hmem] at hget
    rw [hash_after, if_pos hmem'] at hget'
    rw [hplace, hplace']
    refine ⟨fun hkeys ↦ ?_, fun hs ↦ hs ▸ rfl⟩
    rw [hkeys, hget'] at hget
    exact (Option.some.inj hget).symm
  again earlier later s hcalls hagain := by
    subst hcalls
    have hf := filed_earlier hfew
    have hmem : s ∈ told hash earlier ((after hash earlier).hash s) :=
      mem_told.mpr ⟨hagain, by rw [hash_after]⟩
    refine ⟨by rw [hf.size_intern, if_pos hmem], fun k ↦ ?_⟩
    rw [hf.get_intern]
    split
    · next hk => rw [hk, hf.get_place, if_pos hmem]
    · rfl

end InternTable

end ManagedMachine
