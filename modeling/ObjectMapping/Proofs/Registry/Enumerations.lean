import ObjectMapping.Proofs.Conversion.Enumerations
import ObjectMapping.Proofs.Registry.Extension
import ObjectMapping.Proofs.Registry.Safety

/-! # Registered enum mappings

A registered enum mapping is found wherever the code of a method asks for a member of its target to be
made of a member of its source. So the code for a conversion between types that agree up to the
exchange of the two enum classes never fails for values of the source type, in the registry or in any
larger one.

* `lookup_of_registerEnum`: the mapping that is registered is the one that is built.
* `follows_createWith`: what a registry makes of members of the source follows the mapping.
* **`eval_of_exchanges`** — the code for the conversion does not fail.
* **`enum_mapping_total`** — enum mappings are total, typed and faithful to their overrides, on their
  own and inside collections. -/

namespace ObjectMapping

open Outcome Conversion Registry

variable {source target : Enumeration} {overrides : EnumOverrides} {m : EnumMapping}
  {r r' made run : Registry}

/-- The registered mapping is the one that is built. -/
theorem lookup_of_registerEnum (h : r.registerEnum source target overrides = .ok r')
    (hbuild : EnumMapping.build source target overrides = .ok m) :
    r'.lookup? (.of source.handle target.handle .create) = some (.enum m) := by
  have hentered : r.enter (.enums source target overrides) = .ok r' := h
  obtain ⟨registered, hlookup, hprovides⟩ := provides_of_enter hentered List.mem_cons_self
  cases hprovides with
  | @enum _ _ _ m' hbuild' =>
    obtain rfl : m' = m := Except.ok.inj (hbuild'.symm.trans hbuild)
    exact hlookup

/-- **What a registry makes of members of the source follows the mapping**, whatever is invoked for
other values. -/
theorem follows_createWith (hbuild : EnumMapping.build source target overrides = .ok m)
    (hlookup : r.lookup? (.of source.handle target.handle .create) = some (.enum m)) (extra : Extra)
    (inner : Invoker) :
    EnumMapping.Follows source target overrides (r.createWith extra.value inner) := by
  intro owner name t howner hname ht
  have hkey : MappingKey.of source.handle t .create = .of source.handle target.handle .create := by
    rw [MappingKey.of, MappingKey.of, ht]
  rw [createWith_of_enum rfl howner (hkey ▸ hlookup)]
  exact EnumMapping.apply_member hbuild howner hname

/-- A mapping on its own follows itself. -/
theorem EnumMapping.follows_apply (hbuild : EnumMapping.build source target overrides = .ok m) :
    EnumMapping.Follows source target overrides fun v _ => m.apply v :=
  fun _ _ _ howner hname _ => EnumMapping.apply_member hbuild howner hname

/-- **The code for a conversion of members does not fail.** It is made with the methods of one
registry and evaluated with those of another one, as long as both have the mapping; what comes out is
what the mapping alone gives. -/
theorem eval_of_exchanges (hbuild : EnumMapping.build source target overrides = .ok m)
    (hmade : made.lookup? (.of source.handle target.handle .create) = some (.enum m))
    (hrun : run.lookup? (.of source.handle target.handle .create) = some (.enum m))
    {S T : FieldType} (hexchanges : S.Exchanges source.handle target.handle T) (value : Expr)
    (depth : Nat) :
    ∃ code, express made.methodTable S value depth T = .ok code ∧
      ∀ (f : Frame) (scope : Scope) (extra : Extra) (n : Nat) (v : Value), 0 < n →
        f.eval (run.invoker extra.value n) scope value = .ok v → v.Holds [source, target] S →
        ∃ w, f.eval (run.invoker extra.value n) scope code = .ok w ∧ w.Holds [source, target] T ∧
          direct (fun v _ => m.apply v) S (.ok v) T = .ok w := by
  have hmethod : ∀ s t : ClassHandle, s.id = source.handle.id → t.id = target.handle.id →
      made.methodTable s t .create = true := by
    intro s t hs ht
    have hkey : MappingKey.of s t .create = .of source.handle target.handle .create := by
      rw [MappingKey.of, MappingKey.of, hs, ht]
    rw [methodTable, contains, hkey, hmade]
    rfl
  obtain ⟨code, hcode⟩ := convertible_of_exchanges hexchanges hmethod value depth
  refine ⟨code, hcode, fun f scope extra n v hn hvalue hv => ?_⟩
  have hsensible := (EnumMapping.build_eq_ok_iff.mp hbuild).1
  obtain ⟨w, hw⟩ := hsensible.exists_carries hexchanges hv
  refine ⟨w, ?_, hw.holds, hw.direct _ (EnumMapping.follows_apply hbuild)⟩
  -- at every depth but zero members are made by the registry itself
  obtain ⟨n, rfl⟩ := Nat.exists_eq_succ_of_ne_zero (Nat.ne_of_gt hn)
  rw [eval_express _ f hcode, hvalue]
  exact hw.direct _ (follows_createWith hbuild hrun extra _)

/-- A member on its own is converted by the mapping. -/
theorem convert_member (hbuild : EnumMapping.build source target overrides = .ok m)
    (hlookup : r.lookup? (.of source.handle target.handle .create) = some (.enum m)) {v : Value}
    (hv : v.IsMemberOf source) (extra : Extra) :
    r.convert v target.handle extra = m.apply v := by
  obtain ⟨owner, name, rfl, howner, hname⟩ := hv
  have hfollows := follows_createWith hbuild hlookup extra (r.invoker extra.value 0)
  rw [EnumMapping.apply_member hbuild howner hname]
  exact hfollows owner name target.handle howner hname rfl

/-- **Enum mappings are total, typed and faithful to their overrides.** A mapping is built exactly if
the overrides lead from members of the source to members of the target and every other member of the
source has a member of its name in the target; otherwise it is refused as an invalid one. It then maps
every member of the source to the member of the target that its override gives, or else to the one of
its name, and fails for all other values.

Once it is registered, members are converted by it. There is code for the conversion between any two
types that agree up to the exchange of the two classes, inside optional values and collections of any
depth; and this code never fails for values of the source type, nor does it in a registry to which
further registrations lead. -/
theorem enum_mapping_total (source target : Enumeration) (overrides : EnumOverrides) :
    ((∃ m, EnumMapping.build source target overrides = .ok m) ↔
      EnumMapping.Sensible source target overrides) ∧
    (¬ EnumMapping.Sensible source target overrides →
      ∃ fault, EnumMapping.build source target overrides = .error (.invalidEnumMapping fault)) ∧
    ∀ m, EnumMapping.build source target overrides = .ok m →
      (∀ (owner : ClassHandle) (name : String), owner.id = source.handle.id →
        name ∈ source.members → ∃ other ∈ target.members,
          other = (overrides.lookup name).getD name ∧
            m.apply (.member owner name) = .ok (.member target.handle other)) ∧
      (∀ v : Value, ¬ v.IsMemberOf source → ∃ e, m.apply v = .error e) ∧
      ∀ r r' : Registry, r.registerEnum source target overrides = .ok r' →
        ∀ made run : Registry, r'.Extends made → r'.Extends run →
          (∀ v : Value, v.IsMemberOf source → ∀ extra,
            run.convert v target.handle extra = m.apply v) ∧
          ∀ S T : FieldType, S.Exchanges source.handle target.handle T →
            ∀ (value : Expr) (depth : Nat), ∃ code,
              express made.methodTable S value depth T = .ok code ∧
              ∀ (f : Frame) (scope : Scope) (extra : Extra) (n : Nat) (v : Value), 0 < n →
                f.eval (run.invoker extra.value n) scope value = .ok v →
                v.Holds [source, target] S →
                ∃ w, f.eval (run.invoker extra.value n) scope code = .ok w ∧
                  w.Holds [source, target] T ∧
                  direct (fun v _ => m.apply v) S (.ok v) T = .ok w := by
  refine ⟨⟨?_, fun h => ⟨_, EnumMapping.build_eq_ok_iff.mpr ⟨h, rfl⟩⟩⟩, EnumMapping.build_error, ?_⟩
  · rintro ⟨m, hbuild⟩
    exact (EnumMapping.build_eq_ok_iff.mp hbuild).1
  · intro m hbuild
    have hsensible := (EnumMapping.build_eq_ok_iff.mp hbuild).1
    refine ⟨fun owner name howner hname => ?_, fun v hv => ?_,
      fun r r' hregister made run hmade hrun => ?_⟩
    · exact ⟨_, hsensible.image_mem hname, rfl, EnumMapping.apply_member hbuild howner hname⟩
    · cases happly : m.apply v with
      | error e => exact ⟨e, rfl⟩
      | ok w => exact absurd (EnumMapping.member_of_apply hbuild happly) hv
    · -- the mapping is found under the two enums, and stays there in larger registries
      have hlookup := lookup_of_registerEnum hregister hbuild
      exact ⟨fun v hv => convert_member hbuild (hrun.lookup hlookup) hv,
        fun S T => eval_of_exchanges hbuild (hmade.lookup hlookup) (hrun.lookup hlookup)⟩

namespace Sample

/-- The colors that are mapped. -/
def color : Enumeration := ⟨⟨30, "Color"⟩, ["RED", "CYAN"]⟩

/-- The paints that they are mapped to. -/
def paint : Enumeration := ⟨⟨31, "Paint"⟩, ["RED", "BLUE"]⟩

/-- Colors as paints. -/
def painting : EnumMapping := ⟨color.handle, paint, [("RED", "RED"), ("CYAN", "BLUE")]⟩

/-- The registry in which colors become paints. -/
def paintRegistry : Registry := ⟨[(.of color.handle paint.handle .create, .enum painting)]⟩

/-- The colors of parts, by the names of the parts. -/
def coats (e : Enumeration) : FieldType :=
  .optional (.dict (.builtin .str) (.list (.named e.handle)))

/-- A door with two coats. -/
def door (e : Enumeration) (first second : String) : Value :=
  .dict [(.str "door", .list [.member e.handle first, .member e.handle second])]

/-- A door holds members of the two enums only. -/
theorem holds_door : (door color "CYAN" "RED").Holds [color, paint] (coats color) := by
  refine .some (.dict (fun entry hentry => ?_) fun entry hentry => ?_)
  · refine .named fun e he hid => ?_
    rcases List.mem_pair.mp he with rfl | rfl
    · exact absurd hid (by decide)
    · exact absurd hid (by decide)
  · obtain rfl := List.mem_singleton.mp hentry
    refine .list fun v hv => .named fun e he hid => ?_
    obtain rfl : e = color := by
      rcases List.mem_pair.mp he with rfl | rfl
      · rfl
      · exact absurd hid (by decide)
    rcases List.mem_pair.mp hv with rfl | rfl
    · exact ⟨color.handle, "CYAN", rfl, rfl, by decide⟩
    · exact ⟨color.handle, "RED", rfl, rfl, by decide⟩

/-- The types of the coats go into each other by the mapping of the two enums. -/
theorem exchanges_coats : (coats color).Exchanges color.handle paint.handle (coats paint) :=
  .optional (.dict (.kept rfl) (.list (.exchanged rfl rfl)))

end Sample

/-- Colors become paints, also those of the coats of a door; paints are refused. -/
theorem enum_mapping_total_paints :
    Sample.painting.apply (.member Sample.color.handle "CYAN")
        = .ok (.member Sample.paint.handle "BLUE") ∧
      (∃ e, Sample.painting.apply (.member Sample.paint.handle "RED") = .error e) ∧
      Sample.paintRegistry.convert (.member Sample.color.handle "RED") Sample.paint.handle []
        = .ok (.member Sample.paint.handle "RED") ∧
      ∃ code, express Sample.paintRegistry.methodTable (Sample.coats Sample.color)
          (.const (Sample.door Sample.color "CYAN" "RED")) 0 (Sample.coats Sample.paint) = .ok code ∧
        ∀ f : Frame, f.eval (Sample.paintRegistry.invoker (Extra.value []) 1) [] code
          = .ok (Sample.door Sample.paint "BLUE" "RED") := by
  obtain ⟨-, -, htotal⟩ := enum_mapping_total Sample.color Sample.paint [("CYAN", "BLUE")]
  obtain ⟨hmembers, hothers, hregistered⟩ := htotal Sample.painting rfl
  obtain ⟨hconvert, hcode⟩ := hregistered .empty Sample.paintRegistry rfl _ _ .refl .refl
  have hred : (Value.member Sample.color.handle "RED").IsMemberOf Sample.color :=
    ⟨Sample.color.handle, "RED", rfl, rfl, by decide⟩
  refine ⟨?_, hothers _ ?_, ?_, ?_⟩
  · obtain ⟨other, -, rfl, happly⟩ := hmembers Sample.color.handle "CYAN" rfl (by decide)
    exact happly
  · rintro ⟨owner, name, heq, howner, -⟩
    obtain ⟨rfl, -⟩ := Value.member.inj heq
    exact absurd howner (by decide)
  · rw [hconvert _ hred []]
    rfl
  · obtain ⟨code, hexpress, heval⟩ := hcode _ _ Sample.exchanges_coats
      (.const (Sample.door Sample.color "CYAN" "RED")) 0
    refine ⟨code, hexpress, fun f => ?_⟩
    obtain ⟨w, hw, -, hdirect⟩ := heval f [] [] 1 _ (by decide) rfl Sample.holds_door
    rw [hw, ← hdirect]
    rfl

end ObjectMapping
