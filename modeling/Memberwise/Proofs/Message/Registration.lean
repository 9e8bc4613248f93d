import Memberwise.Proofs.Message.RoundTrip

/-!
# What registration makes sure of

Every operation of a serializer that finds no table looks at what the members are capable of before it has one built.
Asking the cache of the serializer for the table goes past this, and later operations take the table as they find it.

So once a host type is registered its table has an accessor set for every declared member, with the capabilities of this
member, and unless the cache was asked for the table before, all of them can be read and assigned
(`Serializer.table_of_register`).
-/

namespace Memberwise

namespace Serializer

variable {F : HostFamily} {locate : Locator F} {s : Serializer F} {h : F.Host}

/-- A call that brings about the table of a host type, other than by asking the cache for it, finds all members readable
and assignable. -/
theorem readWrite_of_after {call : Call F} (hcall : call ≠ .cachedTable h)
    (hhas : (after locate s call).cache.hasTable h) :
    s.cache.hasTable h ∨ ∀ m ∈ locate h, m.isReadable ∧ m.isWritable := by
  rcases after_cases locate s call with heq | ⟨h', hchecked, heq⟩ | ⟨h', m, -, heq⟩
  · rw [heq] at hhas
    exact .inl hhas
  · rw [heq] at hhas
    rcases Cache.hasTable_of_table hhas with hbefore | rfl
    · exact .inl hbefore
    · rcases hchecked with rfl | hchecked
      · exact absurd rfl hcall
      · exact hchecked
  · rw [heq, Cache.hasTable_getOrCompile] at hhas
    exact .inl hhas

/-- As long as the cache is not asked for the table of a host type, there is one only if all members can be read and
assigned. -/
theorem readWrite_of_hasTable {r : Registry} {config : MessageConfig} {calls : List (Call F)}
    (hcalls : Call.cachedTable h ∉ calls) (hhas : (inUse locate r config calls).cache.hasTable h) :
    ∀ m ∈ locate h, m.isReadable ∧ m.isWritable := by
  have hkept : (inUse locate r config calls).cache.hasTable h → ∀ m ∈ locate h, m.isReadable ∧ m.isWritable := by
    apply inUse_induction (P := fun s => s.cache.hasTable h → ∀ m ∈ locate h, m.isReadable ∧ m.isWritable)
    · intro hfresh
      simp [ofRegistry, Cache.hasTable] at hfresh
    · intro s hs call hcall hafter
      have hother : call ≠ .cachedTable h := by
        rintro rfl
        exact hcalls hcall
      rcases readWrite_of_after hother hafter with hbefore | hall
      · exact hs hbefore
      · exact hall
  exact hkept hhas

theorem exists_table_of_register {members : List (Member (F.Instance h))}
    (hok : (s.register h members).1 = .ok ()) : ∃ t, (s.register h members).2.cache.table? h = some t := by
  rw [register, withTable_fst] at hok
  rw [register, withTable_snd]
  rcases table_eq s h members with ⟨e, heq⟩ | ⟨-, heq⟩
  · rw [heq] at hok
    cases hok
  · rcases s.cache.table_failed_or_published h members with ⟨e, hcache⟩ | ⟨t, -, hpublished⟩
    · rw [heq, hcache] at hok
      cases hok
    · exact ⟨t, by rw [heq, hpublished]⟩

/-- What a registered host type can rely on. Whatever a serializer was called for before, after a successful registration
the table of the host type has one accessor set for each declared member, with the capabilities of this member; and all
of them can be read and assigned, unless the cache was asked for the table before. -/
theorem table_of_register (locate : Locator F) (r : Registry) (config : MessageConfig) (calls : List (Call F))
    (h : F.Host) (hok : ((inUse locate r config calls).register h (locate h)).1 = .ok ()) :
    ∃ t, ((inUse locate r config calls).register h (locate h)).2.cache.table? h = some t ∧
      List.Forall₂ (fun m s => s.value.isReadable = m.isReadable ∧ s.value.isWritable = m.isWritable) (locate h)
        t.value.sets ∧
      (Call.cachedTable h ∈ calls ∨ ∀ s ∈ t.value.sets, s.value.isReadable ∧ s.value.isWritable) := by
  have hcalled : ((inUse locate r config calls).register h (locate h)).2 =
      inUse locate r config (calls ++ [.register h]) := by
    rw [inUse, inUse, List.foldl_append]
    rfl
  obtain ⟨t, ht⟩ := exists_table_of_register hok
  have hhas := Cache.isSome_table?.1 (Option.isSome_of_mem ht)
  rw [hcalled] at ht hhas
  -- nothing is assumed of what else was compiled: a key fixes the capabilities
  have hanything : ∀ call : Call F, call.Within fun _ _ => True := by
    intro call
    cases call <;> trivial
  have hsound : (inUse locate r config (calls ++ [.register h])).cache.Sound locate fun _ _ => True :=
    sound_inUse r config (by simp) fun call _ => hanything call
  have hmirrors := hsound.table? ht
  refine ⟨t, by rw [hcalled, ht], hmirrors.compiledFor.imp fun m s hfor => hfor.capability, ?_⟩
  by_cases hasked : Call.cachedTable h ∈ calls
  · exact .inl hasked
  · right
    have hall := readWrite_of_hasTable (by simpa using hasked) hhas
    intro s hs
    obtain ⟨m, hm, hfor⟩ := hmirrors.exists_of_mem hs
    obtain ⟨hread, hwrite⟩ := hfor.capability
    rw [hread, hwrite]
    exact hall m hm

end Serializer

namespace Visit

/-- Registering a visit after some other calls. -/
theorem table_of_register_members :
    let s := Serializer.inUse (F := family) (fun _ => members) (Registry.builtin ⟨.big, true⟩) ⟨.u16, 100⟩
      [.getOrCompile () (.readOnlyField "shown" .bool fun x : Visit => x.shown), .serialize () sample]
    (s.register () members).1 = .ok () ∧ ∃ t, (s.register () members).2.cache.table? () = some t ∧
      ∀ s ∈ t.value.sets, s.value.isReadable ∧ s.value.isWritable := by
  intro s
  have hok : (s.register () members).1 = .ok () := by decide +kernel
  obtain ⟨t, ht, -, hasked | hall⟩ := Serializer.table_of_register (F := family) (fun _ => members) _ _ _ () hok
  · simp at hasked
  · exact ⟨hok, t, ht, hall⟩

/-- The members of a visit that cannot be assigned. -/
def shownOnly : List (Member Visit) := [.readOnlyField "shown" .bool fun x : Visit => x.shown]

/-- A visit that cannot be assigned is refused, but not after the cache was asked for its table. -/
theorem register_shownOnly :
    let fresh := Serializer.inUse (F := family) (fun _ => shownOnly) (Registry.builtin ⟨.big, true⟩) ⟨.u16, 100⟩ []
    let asked := Serializer.inUse (F := family) (fun _ => shownOnly) (Registry.builtin ⟨.big, true⟩) ⟨.u16, 100⟩
      [.cachedTable ()]
    (fresh.register () shownOnly).1 = .error (.compile (.binding (.notWritable "Visit" "shown"))) ∧
      (asked.register () shownOnly).1 = .ok () ∧
      ((asked.register () shownOnly).2.cache.table? ()).map (fun t => t.value.sets.map (·.value.isWritable)) =
        some [false] := by
  intro fresh asked
  exact ⟨by decide +kernel, by decide +kernel, by decide +kernel⟩

end Visit

end Memberwise
