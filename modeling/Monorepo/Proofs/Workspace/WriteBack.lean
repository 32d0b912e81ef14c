import Mathlib
import Monorepo.Workspace.Manifest
import Monorepo.Proofs.Json.Readers

/-! Writing back a manifest that was read. Reading decodes the document into typed fields and
keeps every other member, in order, among the extensions; writing over the same file merges the
fields back into the document, each member in its place. What comes back is the document read,
but for what the typed fields cannot hold: the root names the directory, an empty name becomes
the directory's name, a null source root or project type is left out, a project type spelled as a
one-key map becomes its name, and each target lists its executor, options and configurations
first. `Manifest.relaid` says this member by member, and `Manifest.write_after_read` proves it of
every manifest read from a tree. -/

namespace Monorepo.Workspace

open Json

/-- The member under `key` as a typed field writes it back: none when it is missing or null. -/
def presentMember (ms : Members) (key : String) : Members :=
  match ms.get? key with
  | some .null | none => []
  | some v => [(key, v)]

/-- The keys a target's typed fields read, in the order they are written. -/
def Target.typedKeys : List String := ["executor", "options", "configurations"]

/-- The keys a manifest's typed fields read. -/
def Manifest.typedKeys : List String := ["name", "root", "sourceRoot", "projectType", "targets"]

/-- A target object as writing it back lays it out: its executor, options and configurations
first, those that are set, then its other members in their order. -/
def Target.relaid : Value → Value
  | .object ms => .object (Target.typedKeys.flatMap (presentMember ms) ++
      ms.filter fun m => m.1 ∉ Target.typedKeys)
  | v => v

/-- What writing back the manifest read from `dir` makes of one member of its document: the root
names `dir`, an empty name becomes the directory's name, a null source root or project type goes,
a project type spelled as a one-key map becomes its name, and each target is laid out anew. -/
def Manifest.relaidMember (dir : Path) : String × Value → Option (String × Value)
  | ("root", _) => some ("root", .string dir.render)
  | ("name", .string "") => some ("name", .string (dir.fileName.getD ""))
  | ("sourceRoot", .null) => none
  | ("projectType", .null) => none
  | ("projectType", .object [(kind, _)]) => some ("projectType", .string kind)
  | ("targets", .object ts) => some ("targets", .object (ts.map fun t => (t.1, Target.relaid t.2)))
  | m => some m

/-- The document that writing back the manifest read from `dir` stages: every member in its place,
as `relaidMember` leaves it. -/
def Manifest.relaid (dir : Path) (document : Members) : Members :=
  document.filterMap (Manifest.relaidMember dir)

section Fold

variable {σ τ : Type} {step : σ → String × Value → Except String σ}

/-- What one step of reading does to `field`: a member under `key` sets it to the member's
reading with `read`, a member under any other key leaves it as it was. -/
structure ReadsField (key : String) (read : Value → Except String τ) (field : σ → τ) (s : σ)
    (k : String) (v : Value) (s' : σ) : Prop where
  sets : k = key → read v = .ok (field s')
  keeps : k ≠ key → field s' = field s

theorem ReadsField.of_key {key : String} {read : Value → Except String τ} {field : σ → τ}
    {s s' : σ} {v : Value} (found : read v = .ok (field s')) : ReadsField key read field s key v s' :=
  ⟨fun _ => found, fun other => absurd rfl other⟩

theorem ReadsField.of_ne {key : String} {read : Value → Except String τ} {field : σ → τ}
    {s s' : σ} {k : String} {v : Value} (other : k ≠ key) (same : field s' = field s) :
    ReadsField key read field s k v s' :=
  ⟨fun named => absurd named other, fun _ => same⟩

theorem ReadsField.of_not_mem {key : String} {read : Value → Except String τ} {field : σ → τ}
    {s s' : σ} {k : String} {v : Value} {keys : List String} (outside : k ∉ keys)
    (member : key ∈ keys) (same : field s' = field s) : ReadsField key read field s k v s' :=
  .of_ne (fun named => absurd (named ▸ member) outside) same

theorem foldlM_field {key : String} {field : σ → τ} {read : Value → Except String τ}
    (reads : ∀ s k v s', step s (k, v) = .ok s' → ReadsField key read field s k v s') :
    ∀ {ms : Members} {acc s : σ}, ms.keys.Nodup → ms.foldlM step acc = .ok s →
      match ms.get? key with
      | some v => read v = .ok (field s)
      | none => field s = field acc := by
  intro ms
  induction ms with
  | nil =>
    intro acc s _ folded
    cases folded
    rfl
  | cons m rest ih =>
    intro acc s nodup folded
    obtain ⟨k, v⟩ := m
    simp only [Members.keys, List.map_cons, List.nodup_cons] at nodup
    rw [List.foldlM_cons, except_bind_eq_ok] at folded
    obtain ⟨a, stepped, folded⟩ := folded
    have later := ih nodup.2 folded
    by_cases same : k = key
    · subst same
      have absent : Members.get? rest k = none := Members.get?_eq_none_iff.mpr nodup.1
      rw [absent] at later
      simpa [Members.get?, later] using (reads acc k v a stepped).sets rfl
    · have passed : Members.get? ((k, v) :: rest) key = Members.get? rest key := by
        simp [Members.get?, same]
      rw [passed]
      split at later
      · exact later
      · exact later.trans ((reads acc k v a stepped).keeps same)

/-- What one step of reading does to the other members `extra`: a member under a key outside
`typed` is inserted among them, one under a typed key leaves them as they were. -/
structure KeepsUntyped (typed : List String) (extra : σ → Members) (s : σ) (k : String)
    (v : Value) (s' : σ) : Prop where
  typedKey : k ∈ typed → extra s' = extra s
  untypedKey : k ∉ typed → extra s' = Members.insert (extra s) k v

theorem KeepsUntyped.of_mem {typed : List String} {extra : σ → Members} {s s' : σ} {k : String}
    {v : Value} (member : k ∈ typed) (same : extra s' = extra s) :
    KeepsUntyped typed extra s k v s' :=
  ⟨fun _ => same, fun outside => absurd member outside⟩

theorem KeepsUntyped.of_not_mem {typed : List String} {extra : σ → Members} {s s' : σ}
    {k : String} {v : Value} (outside : k ∉ typed) (inserted : extra s' = Members.insert (extra s) k v) :
    KeepsUntyped typed extra s k v s' :=
  ⟨fun member => absurd member outside, fun _ => inserted⟩

theorem foldlM_extensions {typed : List String} {extra : σ → Members}
    (keeps : ∀ s k v s', step s (k, v) = .ok s' → KeepsUntyped typed extra s k v s') :
    ∀ {ms : Members} {acc s : σ}, ms.keys.Nodup → (∀ k ∈ ms.keys, k ∉ (extra acc).keys) →
      ms.foldlM step acc = .ok s → extra s = extra acc ++ ms.filter fun m => m.1 ∉ typed := by
  intro ms
  induction ms with
  | nil =>
    intro acc s _ _ folded
    cases folded
    simp
  | cons m rest ih =>
    intro acc s nodup fresh folded
    obtain ⟨k, v⟩ := m
    simp only [Members.keys, List.map_cons, List.nodup_cons] at nodup
    rw [List.foldlM_cons, except_bind_eq_ok] at folded
    obtain ⟨a, stepped, folded⟩ := folded
    by_cases kind : k ∈ typed
    · have same := (keeps acc k v a stepped).typedKey kind
      rw [ih nodup.2 (fun k' member => same ▸ fresh k' (List.mem_cons_of_mem k member)) folded,
        same]
      simp [kind]
    · have grown := (keeps acc k v a stepped).untypedKey kind
      rw [Members.insert_of_not_mem (fresh k List.mem_cons_self)] at grown
      have fresh' : ∀ k' ∈ Members.keys rest, k' ∉ (extra a).keys :=
        grown ▸ Members.fresh_after_append nodup.1 fun k' member => fresh k' (List.mem_cons_of_mem k member)
      rw [ih nodup.2 fresh' folded, grown]
      simp [kind]

end Fold

theorem Target.decodeMember_inv {t t' : Target} {k : String} {v : Value}
    (read : t.decodeMember (k, v) = .ok t') :
    (k = "executor" ∧ ∃ e, optionalString v = .ok e ∧ t' = { t with executor := e }) ∨
    (k = "options" ∧ ∃ o, optionalMap v = .ok o ∧ t' = { t with options := o }) ∨
    (k = "configurations" ∧ ∃ c, readConfigurations v = .ok c ∧ t' = { t with configurations := c }) ∨
    (k ∉ Target.typedKeys ∧ t' = { t with extensions := Members.insert t.extensions k v }) := by
  simp only [Target.decodeMember] at read
  split at read
  · obtain ⟨e, found, read⟩ := except_bind_eq_ok.mp read
    exact .inl ⟨rfl, e, found, (Except.ok.inj read).symm⟩
  · obtain ⟨o, found, read⟩ := except_bind_eq_ok.mp read
    exact .inr (.inl ⟨rfl, o, found, (Except.ok.inj read).symm⟩)
  · obtain ⟨c, found, read⟩ := except_bind_eq_ok.mp read
    exact .inr (.inr (.inl ⟨rfl, c, found, (Except.ok.inj read).symm⟩))
  · rename_i executor options configurations
    refine .inr (.inr (.inr ⟨?_, (Except.ok.inj read).symm⟩))
    simp only [Target.typedKeys, List.mem_cons, List.not_mem_nil, or_false, not_or]
    exact ⟨executor, options, configurations⟩

theorem Manifest.decodeMember_inv {m m' : Manifest} {k : String} {v : Value}
    (read : m.decodeMember (k, v) = .ok m') :
    (k = "name" ∧ ∃ n, v.expectString = .ok n ∧ m' = { m with name := n }) ∨
    (k = "root" ∧ ∃ r, readRoot v = .ok r ∧ m' = { m with root := r }) ∨
    (k = "sourceRoot" ∧ ∃ s, optionalString v = .ok s ∧ m' = { m with sourceRoot := s }) ∨
    (k = "projectType" ∧ ∃ p, readProjectType v = .ok p ∧ m' = { m with projectType := p }) ∨
    (k = "targets" ∧ ∃ ts, readTargets v = .ok ts ∧ m' = { m with targets := ts }) ∨
    (k ∉ Manifest.typedKeys ∧ m' = { m with extensions := Members.insert m.extensions k v }) := by
  simp only [Manifest.decodeMember] at read
  split at read
  · obtain ⟨n, found, read⟩ := except_bind_eq_ok.mp read
    exact .inl ⟨rfl, n, found, (Except.ok.inj read).symm⟩
  · obtain ⟨r, found, read⟩ := except_bind_eq_ok.mp read
    exact .inr (.inl ⟨rfl, r, found, (Except.ok.inj read).symm⟩)
  · obtain ⟨s, found, read⟩ := except_bind_eq_ok.mp read
    exact .inr (.inr (.inl ⟨rfl, s, found, (Except.ok.inj read).symm⟩))
  · obtain ⟨p, found, read⟩ := except_bind_eq_ok.mp read
    exact .inr (.inr (.inr (.inl ⟨rfl, p, found, (Except.ok.inj read).symm⟩)))
  · obtain ⟨ts, found, read⟩ := except_bind_eq_ok.mp read
    exact .inr (.inr (.inr (.inr (.inl ⟨rfl, ts, found, (Except.ok.inj read).symm⟩))))
  · rename_i name root sourceRoot projectType targets
    refine .inr (.inr (.inr (.inr (.inr ⟨?_, (Except.ok.inj read).symm⟩))))
    simp only [Manifest.typedKeys, List.mem_cons, List.not_mem_nil, or_false, not_or]
    exact ⟨name, root, sourceRoot, projectType, targets⟩

theorem Target.decodeMember_reads {t t' : Target} {k : String} {v : Value}
    (read : t.decodeMember (k, v) = .ok t') :
    ReadsField "executor" optionalString (·.executor) t k v t' ∧
      ReadsField "options" optionalMap (·.options) t k v t' ∧
      ReadsField "configurations" readConfigurations (·.configurations) t k v t' ∧
      KeepsUntyped Target.typedKeys (·.extensions) t k v t' := by
  rcases Target.decodeMember_inv read with
    ⟨rfl, e, found, rfl⟩ | ⟨rfl, o, found, rfl⟩ | ⟨rfl, c, found, rfl⟩ | ⟨outside, rfl⟩
  · exact ⟨.of_key found, .of_ne (by decide) rfl, .of_ne (by decide) rfl,
      .of_mem (by decide) rfl⟩
  · exact ⟨.of_ne (by decide) rfl, .of_key found, .of_ne (by decide) rfl,
      .of_mem (by decide) rfl⟩
  · exact ⟨.of_ne (by decide) rfl, .of_ne (by decide) rfl, .of_key found,
      .of_mem (by decide) rfl⟩
  · exact ⟨.of_not_mem outside (by decide) rfl, .of_not_mem outside (by decide) rfl,
      .of_not_mem outside (by decide) rfl, .of_not_mem outside rfl⟩

theorem Manifest.decodeMember_reads {m m' : Manifest} {k : String} {v : Value}
    (read : m.decodeMember (k, v) = .ok m') :
    ReadsField "name" Value.expectString (·.name) m k v m' ∧
      ReadsField "sourceRoot" optionalString (·.sourceRoot) m k v m' ∧
      ReadsField "projectType" readProjectType (·.projectType) m k v m' ∧
      ReadsField "targets" readTargets (·.targets) m k v m' ∧
      KeepsUntyped Manifest.typedKeys (·.extensions) m k v m' := by
  rcases Manifest.decodeMember_inv read with
    ⟨rfl, n, found, rfl⟩ | ⟨rfl, r, found, rfl⟩ | ⟨rfl, p, found, rfl⟩ | ⟨rfl, p, found, rfl⟩ |
      ⟨rfl, ts, found, rfl⟩ | ⟨outside, rfl⟩
  · exact ⟨.of_key found, .of_ne (by decide) rfl, .of_ne (by decide) rfl,
      .of_ne (by decide) rfl, .of_mem (by decide) rfl⟩
  · exact ⟨.of_ne (by decide) rfl, .of_ne (by decide) rfl, .of_ne (by decide) rfl,
      .of_ne (by decide) rfl, .of_mem (by decide) rfl⟩
  · exact ⟨.of_ne (by decide) rfl, .of_key found, .of_ne (by decide) rfl,
      .of_ne (by decide) rfl, .of_mem (by decide) rfl⟩
  · exact ⟨.of_ne (by decide) rfl, .of_ne (by decide) rfl, .of_key found,
      .of_ne (by decide) rfl, .of_mem (by decide) rfl⟩
  · exact ⟨.of_ne (by decide) rfl, .of_ne (by decide) rfl, .of_ne (by decide) rfl,
      .of_key found, .of_mem (by decide) rfl⟩
  · exact ⟨.of_not_mem outside (by decide) rfl, .of_not_mem outside (by decide) rfl,
      .of_not_mem outside (by decide) rfl, .of_not_mem outside (by decide) rfl,
      .of_not_mem outside rfl⟩

theorem Target.decode_object {ms : Members} {tg : Target} (nodup : ms.keys.Nodup)
    (read : Target.decode (.object ms) = .ok tg) :
    (match ms.get? "executor" with
      | some v => optionalString v = .ok tg.executor
      | none => tg.executor = none) ∧
    (match ms.get? "options" with
      | some v => optionalMap v = .ok tg.options
      | none => tg.options = none) ∧
    (match ms.get? "configurations" with
      | some v => readConfigurations v = .ok tg.configurations
      | none => tg.configurations = none) ∧
    tg.extensions = ms.filter fun m => m.1 ∉ Target.typedKeys := by
  simp only [Target.decode] at read
  have reads := fun (s : Target) k v (s' : Target) (stepped : s.decodeMember (k, v) = .ok s') =>
    Target.decodeMember_reads stepped
  have extensions : tg.extensions = ({} : Target).extensions ++
      ms.filter fun m => m.1 ∉ Target.typedKeys :=
    foldlM_extensions (fun _ _ _ _ stepped => (reads _ _ _ _ stepped).2.2.2) nodup
      (by simp [Members.keys]) read
  exact ⟨foldlM_field (fun _ _ _ _ stepped => (reads _ _ _ _ stepped).1) nodup read,
    foldlM_field (fun _ _ _ _ stepped => (reads _ _ _ _ stepped).2.1) nodup read,
    foldlM_field (fun _ _ _ _ stepped => (reads _ _ _ _ stepped).2.2.1) nodup read,
    by simpa using extensions⟩

theorem Manifest.decode_object {ms : Members} {m : Manifest} (nodup : ms.keys.Nodup)
    (read : Manifest.decode (.object ms) = .ok m) :
    (match ms.get? "name" with
      | some v => v.expectString = .ok m.name
      | none => m.name = "") ∧
    (match ms.get? "sourceRoot" with
      | some v => optionalString v = .ok m.sourceRoot
      | none => m.sourceRoot = none) ∧
    (match ms.get? "projectType" with
      | some v => readProjectType v = .ok m.projectType
      | none => m.projectType = none) ∧
    (match ms.get? "targets" with
      | some v => readTargets v = .ok m.targets
      | none => m.targets = []) ∧
    m.extensions = ms.filter fun m => m.1 ∉ Manifest.typedKeys := by
  simp only [Manifest.decode] at read
  have reads := fun (s : Manifest) k v (s' : Manifest) (stepped : s.decodeMember (k, v) = .ok s') =>
    Manifest.decodeMember_reads stepped
  have extensions : m.extensions = ({} : Manifest).extensions ++
      ms.filter fun m => m.1 ∉ Manifest.typedKeys :=
    foldlM_extensions (fun _ _ _ _ stepped => (reads _ _ _ _ stepped).2.2.2.2) nodup
      (by simp [Members.keys]) read
  exact ⟨foldlM_field (fun _ _ _ _ stepped => (reads _ _ _ _ stepped).1) nodup read,
    foldlM_field (fun _ _ _ _ stepped => (reads _ _ _ _ stepped).2.1) nodup read,
    foldlM_field (fun _ _ _ _ stepped => (reads _ _ _ _ stepped).2.2.1) nodup read,
    foldlM_field (fun _ _ _ _ stepped => (reads _ _ _ _ stepped).2.2.2.1) nodup read,
    by simpa using extensions⟩

/-- How an optional field read from `v` comes back when written with `write`: unset, it was null;
set, writing it gives `v` again. -/
def WrittenBack {α : Type} (write : α → Value) (v : Value) : Option α → Prop
  | none => v = .null
  | some a => write a = v

theorem optionalString_back {v : Value} {o : Option String} (read : optionalString v = .ok o) :
    WrittenBack Value.string v o := by
  unfold optionalString at read
  split at read <;> cases read <;> rfl

theorem optionalMap_back {v : Value} {o : Option Members} (read : optionalMap v = .ok o) :
    WrittenBack Value.object v o := by
  unfold optionalMap at read
  split at read <;> cases read <;> rfl

theorem readConfigurations_back {v : Value} {o : Option (List (String × Members))}
    (read : readConfigurations v = .ok o) :
    WrittenBack (fun cs => Value.object (cs.map fun c => (c.1, Value.object c.2))) v o := by
  unfold readConfigurations at read
  split at read
  · cases read
    rfl
  · obtain ⟨cs, walked, read⟩ := except_bind_eq_ok.mp read
    cases read
    refine congrArg Value.object ((mapM_map (fun c _ r step => ?_) walked).trans (List.map_id _))
    obtain ⟨name, content⟩ := c
    obtain ⟨inner, isMap, step⟩ := except_bind_eq_ok.mp step
    cases step
    unfold Value.expectMap at isMap
    split at isMap <;> cases isMap
    rfl
  · cases read

theorem ProjectType.name_of_ofName? {s : String} {t : ProjectType}
    (named : ProjectType.ofName? s = some t) : t.name = s := by
  unfold ProjectType.ofName? at named
  split at named <;> cases named <;> rfl

theorem readProjectType_back {v : Value} {o : Option ProjectType} (read : readProjectType v = .ok o) :
    (o = none ∧ v = .null) ∨
      ∃ t, o = some t ∧ (v = .string t.name ∨ v = .object [(t.name, .null)]) := by
  unfold readProjectType at read
  split at read
  · cases read
    exact .inl ⟨rfl, rfl⟩
  · split at read
    · rename_i named
      cases read
      exact .inr ⟨_, rfl, .inl (by rw [ProjectType.name_of_ofName? named])⟩
    · cases read
  · split at read
    · rename_i named
      split at read
      · cases read
        exact .inr ⟨_, rfl, .inr (by rw [ProjectType.name_of_ofName? named])⟩
      · cases read
    · cases read
  · cases read
  · cases read

theorem presentMember_of_read {ms : Members} {key : String} {α : Type}
    {read : Value → Except String (Option α)} {write : α → Value} {o : Option α}
    (back : ∀ v o, read v = .ok o → WrittenBack write v o)
    (notNull : ∀ a, write a ≠ .null)
    (found : match ms.get? key with | some v => read v = .ok o | none => o = none) :
    (o.map fun a => [(key, write a)]).getD [] = presentMember ms key := by
  unfold presentMember
  cases present : ms.get? key with
  | none =>
    simp only [present] at found
    subst found
    rfl
  | some v =>
    simp only [present] at found
    have undone := back v o found
    cases o with
    | none =>
      cases undone
      rfl
    | some a =>
      cases undone
      split
      · rename_i null
        exact absurd (Option.some.inj null) (notNull a)
      · rename_i absent
        cases absent
      · rename_i same
        cases same
        rfl

theorem keys_flatMap_presentMember {ms : Members} {ks : List String} {k : String}
    (member : k ∈ Members.keys (ks.flatMap (presentMember ms))) : k ∈ ks := by
  simp only [Members.keys, List.map_flatMap, List.mem_flatMap] at member
  obtain ⟨key, listed, member⟩ := member
  unfold presentMember at member
  split at member <;> simp_all

theorem keys_filter_not_mem {ms : Members} {ks : List String} {k : String}
    (member : k ∈ Members.keys (ms.filter fun m => m.1 ∉ ks)) : k ∉ ks := by
  simp only [Members.keys, List.mem_map, List.mem_filter] at member
  obtain ⟨m, ⟨_, untyped⟩, rfl⟩ := member
  simpa using untyped

theorem Target.toValue_decode {tv : Value} {tg : Target} (once : tv.KeysOnce)
    (read : Target.decode tv = .ok tg) : tg.toValue = Target.relaid tv := by
  cases tv with
  | object ms =>
    cases once with
    | object nodup _ =>
    obtain ⟨executor, options, configurations, extensions⟩ := Target.decode_object nodup read
    unfold Target.toValue Target.relaid
    dsimp only
    rw [presentMember_of_read (fun _ _ => optionalString_back) (fun _ => by simp) executor,
      presentMember_of_read (fun _ _ => optionalMap_back) (fun _ => by simp) options,
      presentMember_of_read (fun _ _ => readConfigurations_back) (fun _ => by simp) configurations,
      show presentMember ms "executor" ++ presentMember ms "options" ++
        presentMember ms "configurations" = Target.typedKeys.flatMap (presentMember ms) by
          simp [Target.typedKeys],
      extensions, Members.foldl_insert_fresh (fun _ _ _ => rfl) (Members.nodup_keys_filter _ nodup)]
    intro k untyped known
    exact keys_filter_not_mem untyped (keys_flatMap_presentMember known)
  | _ => simp [Target.decode] at read

theorem readTargets_back {v : Value} {ts : List (String × Target)} (once : v.KeysOnce)
    (read : readTargets v = .ok ts) :
    ∃ tsm, v = .object tsm ∧
      ts.map (fun (n, t) => (n, t.toValue)) = tsm.map fun t => (t.1, Target.relaid t.2) := by
  unfold readTargets at read
  obtain ⟨tsm, isMap, walked⟩ := except_bind_eq_ok.mp read
  cases v with
  | object ms =>
    simp only [Value.expectMap] at isMap
    cases isMap
    cases once with
    | object _ values =>
    refine ⟨_, rfl, mapM_map (fun t member r step => ?_) walked⟩
    obtain ⟨name, tv⟩ := t
    obtain ⟨tg, decoded, step⟩ := except_bind_eq_ok.mp step
    cases step
    simp only [Target.toValue_decode (values _ member) decoded]
  | _ => simp [Value.expectMap] at isMap

theorem Manifest.get?_knownMembers (m : Manifest) (k : String) :
    m.knownMembers.get? k =
      match k with
      | "name" => some (.string m.name)
      | "root" => some (.string m.root.render)
      | "sourceRoot" => m.sourceRoot.map .string
      | "projectType" => m.projectType.map fun t => .string t.name
      | "targets" =>
        if m.targets.isEmpty then none
        else some (.object (m.targets.map fun (n, t) => (n, t.toValue)))
      | _ => none := by
  split
  case h_6 name root sourceRoot projectType targets =>
    unfold Manifest.knownMembers
    cases m.sourceRoot <;> cases m.projectType <;> split <;>
      simp_all [Members.get?_eq_map_find?, @eq_comm _ k]
  all_goals
    unfold Manifest.knownMembers
    cases m.sourceRoot <;> cases m.projectType <;> split <;> simp_all [Members.get?_eq_map_find?]

theorem Manifest.keys_knownMembers {m : Manifest} {k : String} (member : k ∈ m.knownMembers.keys) :
    k ∈ Manifest.typedKeys := by
  have present : m.knownMembers.get? k ≠ none := fun absent =>
    Members.get?_eq_none_iff.mp absent member
  rw [Manifest.get?_knownMembers] at present
  split at present <;> simp_all [Manifest.typedKeys]

theorem Manifest.nodup_knownMembers (m : Manifest) : m.knownMembers.keys.Nodup := by
  unfold Manifest.knownMembers
  cases m.sourceRoot <;> cases m.projectType <;> split <;> simp [Members.keys]

theorem Manifest.toMembers_eq {m : Manifest} (nodup : m.extensions.keys.Nodup)
    (untyped : ∀ k ∈ m.extensions.keys, k ∉ Manifest.typedKeys) :
    m.toMembers = m.knownMembers ++ m.extensions :=
  Members.foldl_insert_fresh (fun _ _ _ => rfl) nodup fun k member known =>
    untyped k member (Manifest.keys_knownMembers known)

theorem Manifest.nodup_toMembers {m : Manifest} (nodup : m.extensions.keys.Nodup)
    (untyped : ∀ k ∈ m.extensions.keys, k ∉ Manifest.typedKeys) : m.toMembers.keys.Nodup := by
  rw [Manifest.toMembers_eq nodup untyped, Members.keys, List.map_append, List.nodup_append]
  exact ⟨Manifest.nodup_knownMembers m, nodup, fun k known k' extra same =>
    untyped k' extra (same ▸ Manifest.keys_knownMembers known)⟩

theorem Manifest.get?_toMembers {m : Manifest} (nodup : m.extensions.keys.Nodup)
    (untyped : ∀ k ∈ m.extensions.keys, k ∉ Manifest.typedKeys) (k : String) :
    m.toMembers.get? k =
      if k ∈ Manifest.typedKeys then m.knownMembers.get? k else m.extensions.get? k := by
  rw [Manifest.toMembers_eq nodup untyped, Members.get?_append]
  split
  · rename_i typed
    have absent : m.extensions.get? k = none :=
      Members.get?_eq_none_iff.mpr fun member => untyped k member typed
    rw [absent, Option.or_none]
  · rename_i plain
    have absent : m.knownMembers.get? k = none :=
      Members.get?_eq_none_iff.mpr fun member => plain (Manifest.keys_knownMembers member)
    rw [absent, Option.none_or]

theorem Manifest.relaidMember_untyped {dir : Path} {k : String} {v : Value}
    (plain : k ∉ Manifest.typedKeys) : Manifest.relaidMember dir (k, v) = some (k, v) := by
  unfold Manifest.relaidMember
  split <;> simp_all [Manifest.typedKeys]

theorem Manifest.extensions_of_decode {document : Members} {m₀ : Manifest}
    (distinct : document.keys.Nodup) (decoded : Manifest.decode (.object document) = .ok m₀) :
    m₀.extensions.keys.Nodup ∧ ∀ k ∈ m₀.extensions.keys, k ∉ Manifest.typedKeys := by
  obtain ⟨-, -, -, -, extensions⟩ := Manifest.decode_object distinct decoded
  rw [extensions]
  exact ⟨Members.nodup_keys_filter _ distinct, fun _ => keys_filter_not_mem⟩

theorem Manifest.mergedMember_toMembers {document : Members} {m₀ : Manifest} {dir : Path}
    {n : String} (once : (Value.object document).KeysOnce)
    (decoded : Manifest.decode (.object document) = .ok m₀)
    (named : if m₀.name.isEmpty then dir.fileName = some n else n = m₀.name)
    {k : String} {v : Value} (member : (k, v) ∈ document) :
    Members.mergedMember ({ m₀ with root := dir, name := n } : Manifest).toMembers (k, v) =
      Manifest.relaidMember dir (k, v) := by
  cases once with
  | object distinct values =>
  obtain ⟨name, sourceRoot, projectType, targets, extensions⟩ :=
    Manifest.decode_object distinct decoded
  have found : document.get? k = some v := Members.get?_eq_some_of_mem distinct member
  obtain ⟨nodup, untyped⟩ := Manifest.extensions_of_decode distinct decoded
  unfold Members.mergedMember
  rw [Manifest.get?_toMembers (m := { m₀ with root := dir, name := n }) nodup untyped]
  dsimp only
  by_cases typed : k ∈ Manifest.typedKeys
  · rw [if_pos typed, Manifest.get?_knownMembers]
    simp only [Manifest.typedKeys, List.mem_cons, List.not_mem_nil, or_false] at typed
    rcases typed with rfl | rfl | rfl | rfl | rfl
    · simp only [found] at name
      cases v <;> simp only [Value.expectString, reduceCtorEq] at name
      cases name
      by_cases empty : m₀.name = ""
      · simp_all [Manifest.relaidMember]
      · simp_all [Manifest.relaidMember]
    · simp [Manifest.relaidMember]
    · simp only [found] at sourceRoot
      have back := optionalString_back sourceRoot
      cases set : m₀.sourceRoot with
      | none =>
        rw [set] at back
        cases back
        simp [Manifest.relaidMember, isEmptyCollection]
      | some s =>
        rw [set] at back
        cases back
        simp [Manifest.relaidMember]
    · simp only [found] at projectType
      rcases readProjectType_back projectType with ⟨unset, rfl⟩ | ⟨kind, set, rfl | rfl⟩
      · simp [unset, Manifest.relaidMember, isEmptyCollection]
      · simp [set, Manifest.relaidMember]
      · simp [set, Manifest.relaidMember]
    · simp only [found] at targets
      obtain ⟨tsm, rfl, same⟩ := readTargets_back (values _ member) targets
      by_cases empty : m₀.targets = []
      · rw [empty, List.map_nil, eq_comm, List.map_eq_nil_iff] at same
        simp [empty, same, Manifest.relaidMember, isEmptyCollection]
      · simp [empty, same, Manifest.relaidMember]
  · rw [if_neg typed, extensions, Members.get?_filter_not_mem, if_neg typed, found,
      Manifest.relaidMember_untyped typed]

theorem Manifest.get?_toMembers_absent {document : Members} {m₀ : Manifest} {dir : Path}
    {n : String} (distinct : document.keys.Nodup)
    (decoded : Manifest.decode (.object document) = .ok m₀) {k : String}
    (absent : k ∉ document.keys) (notName : k ≠ "name") (notRoot : k ≠ "root") :
    ({ m₀ with root := dir, name := n } : Manifest).toMembers.get? k = none := by
  obtain ⟨-, sourceRoot, projectType, targets, extensions⟩ :=
    Manifest.decode_object distinct decoded
  have missing : document.get? k = none := Members.get?_eq_none_iff.mpr absent
  obtain ⟨nodup, untyped⟩ := Manifest.extensions_of_decode distinct decoded
  rw [Manifest.get?_toMembers (m := { m₀ with root := dir, name := n }) nodup untyped]
  by_cases typed : k ∈ Manifest.typedKeys
  · rw [if_pos typed, Manifest.get?_knownMembers]
    simp only [Manifest.typedKeys, List.mem_cons, List.not_mem_nil, or_false] at typed
    rcases typed with rfl | rfl | rfl | rfl | rfl
    · exact absurd rfl notName
    · exact absurd rfl notRoot
    · simp only [missing] at sourceRoot
      simp [sourceRoot]
    · simp only [missing] at projectType
      simp [projectType]
    · simp only [missing] at targets
      simp [targets]
  · rw [if_neg typed, extensions, Members.get?_filter_not_mem, if_neg typed, missing]

theorem Manifest.read_inv {t : StagedTree} {dir : Path} {settings : Config.WorkspaceSettings}
    {m : Manifest} (read : Manifest.read t dir settings = .ok m) :
    ∃ (p : Path) (document : Members) (m₀ : Manifest) (n : String),
      Manifest.pathIn dir settings = .ok p ∧
      t.readJson p = .ok (.object document) ∧ Manifest.decode (.object document) = .ok m₀ ∧
      (if m₀.name.isEmpty then dir.fileName = some n else n = m₀.name) ∧
      m = { m₀ with root := dir, name := n } := by
  unfold Manifest.read at read
  obtain ⟨p, located, read⟩ := except_bind_eq_ok.mp read
  obtain ⟨m₀, loaded, read⟩ := except_bind_eq_ok.mp read
  unfold StagedTree.readJsonAs at loaded
  obtain ⟨v, parsed, decoded⟩ := except_bind_eq_ok.mp loaded
  split at decoded
  · rename_i decodedOk
    cases decoded
    cases v with
    | object document =>
      refine ⟨p, document, m₀, ?_⟩
      simp only at read
      split at read
      · rename_i unnamed
        split at read
        · rename_i n named
          cases read
          exact ⟨n, located, parsed, decodedOk, by simp [unnamed, named], rfl⟩
        · cases read
      · rename_i named
        cases read
        exact ⟨m₀.name, located, parsed, decodedOk, by simp [named], rfl⟩
    | _ => simp [Manifest.decode] at decodedOk
  · cases decoded

theorem Manifest.nameOmitted_iff {document : Members} {m₀ : Manifest} {dir : Path} {n : String}
    (distinct : document.keys.Nodup) (decoded : Manifest.decode (.object document) = .ok m₀)
    (named : if m₀.name.isEmpty then dir.fileName = some n else n = m₀.name) :
    (!document.contains "name" && dir.fileName == some n) = !document.contains "name" := by
  obtain ⟨name, -, -, -, -⟩ := Manifest.decode_object distinct decoded
  cases present : document.contains "name"
  · have absent : document.get? "name" = none :=
      Members.get?_eq_none_iff.mpr fun member =>
        absurd (Members.contains_iff.mpr member) (by simp [present])
    simp only [absent] at name
    simp_all
  · rfl

theorem get?_trimmed {document updated kept trimmed : Members} (nodup : updated.keys.Nodup)
    (rootTrimmed : (if ¬document.contains "root" = true then (Members.swapRemove updated "root").2
      else updated) = kept)
    (nameTrimmed : (if (!document.contains "name") = true then (Members.swapRemove kept "name").2
      else kept) = trimmed) :
    trimmed.keys.Nodup ∧ ∀ k, trimmed.get? k =
      if (k = "root" ∨ k = "name") ∧ k ∉ document.keys then none else updated.get? k := by
  have nodupKept : kept.keys.Nodup := rootTrimmed ▸ Members.nodup_ite_swapRemove nodup _
  refine ⟨nameTrimmed ▸ Members.nodup_ite_swapRemove nodupKept _, fun k => ?_⟩
  rw [← nameTrimmed, Members.get?_ite_swapRemove nodupKept, ← rootTrimmed,
    Members.get?_ite_swapRemove nodup]
  by_cases present : k ∈ document.keys
  · have has : document.contains k = true := Members.contains_iff.mpr present
    by_cases isName : k = "name"
    · subst isName
      simp [has, present]
    · simp only [isName, and_false, if_false]
      by_cases isRoot : k = "root"
      · subst isRoot
        simp [has, present]
      · simp [isRoot]
  · have lacks : document.contains k = false :=
      Bool.eq_false_iff.mpr (mt Members.contains_iff.mp present)
    by_cases isName : k = "name"
    · subst isName
      simp [lacks, present]
    · by_cases isRoot : k = "root"
      · subst isRoot
        simp [lacks, present]
      · simp [isRoot, isName]

/-- Writing back the manifest read from a directory stages, at the file it was read from, the
document it was read from laid out anew: each member in its place, as `relaidMember` has it. -/
theorem Manifest.write_after_read {t : StagedTree} {dir : Path}
    {settings : Config.WorkspaceSettings} {m : Manifest}
    (read : Manifest.read t dir settings = .ok m) :
    ∃ (p : Path) (document : Members), Manifest.pathIn dir settings = .ok p ∧
      t.readJson p = .ok (.object document) ∧ m.write t settings = t.writeJson p (.object (Manifest.relaid dir document)) := by
  obtain ⟨p, document, m₀, n, located, loaded, decoded, named, rfl⟩ := Manifest.read_inv read
  refine ⟨p, document, located, loaded, ?_⟩
  have once := StagedTree.readJson_keysOnce loaded
  have distinct : document.keys.Nodup := by
    cases once
    assumption
  obtain ⟨nodup, untyped⟩ := Manifest.extensions_of_decode distinct decoded
  have file := StagedTree.isFile_of_readJson loaded
  have reread : t.readJsonAs p Value.expectMap = .ok document := by
    simp [StagedTree.readJsonAs, loaded, Value.expectMap]
  simp only [Manifest.write, Manifest.path, located, except_ok_bind, file, Bool.not_true,
    Bool.false_eq_true, if_false, reread]
  set U0 := ({ m₀ with root := dir, name := n } : Manifest).toMembers
  rw [Manifest.nameOmitted_iff distinct decoded named, ← ite_not (document.contains "root" = true)]
  have nodup0 : U0.keys.Nodup :=
    Manifest.nodup_toMembers (m := { m₀ with root := dir, name := n }) nodup untyped
  generalize hU1 : (if ¬document.contains "root" = true then (Members.swapRemove U0 "root").2
    else U0) = U1
  generalize hU2 : (if (!document.contains "name") = true then (Members.swapRemove U1 "name").2
    else U1) = U2
  obtain ⟨nodup2, trimmed⟩ := get?_trimmed nodup0 hU1 hU2
  have kept : ∀ k ∈ document.keys, U2.get? k = U0.get? k := fun k present => by
    rw [trimmed, if_neg fun absent => absent.2 present]
  have within : ∀ k ∈ U2.keys, k ∈ document.keys := by
    intro k member
    by_contra absent
    have gone : U2.get? k = none := by
      rw [trimmed]
      split_ifs with named
      · rfl
      · simp only [absent, not_false_eq_true, and_true, not_or] at named
        exact Manifest.get?_toMembers_absent distinct decoded absent named.2 named.1
    exact Members.get?_eq_none_iff.mp gone member
  rw [Members.mergeInPlace_eq distinct nodup2 within, Manifest.relaid]
  refine congrArg _ (congrArg _ (List.filterMap_congr fun ⟨k, v⟩ member => ?_))
  simp only [Members.mergedMember, kept k (Members.mem_keys_of_mem member)]
  exact Manifest.mergedMember_toMembers once decoded named member

/-- The manifest `{"name":"a"}` of the directory `x`, read and written back. -/
theorem Manifest.write_after_read_of_named_manifest :
    let t : StagedTree :=
      { disk := ⟨[([.text "x"], .dir),
          ([.text "x", .text "p"], .file (Utf8.encode "\x7b\"name\":\"a\"\x7d"))]⟩ }
    Manifest.read t ⟨["x"]⟩ { manifestFile := "p" } = .ok { name := "a", root := ⟨["x"]⟩ } ∧
      ∃ (p : Path) (document : Members), Manifest.pathIn ⟨["x"]⟩ { manifestFile := "p" } = .ok p ∧
        t.readJson p = .ok (.object document) ∧
        ({ name := "a", root := ⟨["x"]⟩ } : Manifest).write t { manifestFile := "p" } =
          t.writeJson p (.object (Manifest.relaid ⟨["x"]⟩ document)) := by
  intro t
  have read : Manifest.read t ⟨["x"]⟩ { manifestFile := "p" } =
      .ok { name := "a", root := ⟨["x"]⟩ } := by
    cbv
  exact ⟨read, Manifest.write_after_read read⟩

/-- A target is not written back as it was read: in the manifest
`{"targets":{"b":{"options":{},"executor":"e"}}}` of the directory `x`, writing back what was
read puts the executor of `b` before its options. -/
theorem Manifest.write_after_read_moves_executor_first :
    let t : StagedTree :=
      { disk := ⟨[([.text "x"], .dir),
          ([.text "x", .text "p"], .file (Utf8.encode
            "\x7b\"targets\":\x7b\"b\":\x7b\"options\":\x7b\x7d,\"executor\":\"e\"\x7d\x7d\x7d"))]⟩ }
    let m : Manifest :=
      { name := "x", root := ⟨["x"]⟩,
        targets := [("b", { executor := some "e", options := some [] })] }
    Manifest.read t ⟨["x"]⟩ { manifestFile := "p" } = .ok m ∧
      (m.write t { manifestFile := "p" }).map (·.read ⟨["x", "p"]⟩) =
        .ok (.ok (Utf8.encode ("\x7b\n  \"targets\": \x7b\n    \"b\": \x7b\n      \"executor\": \"e\",\n" ++
          "      \"options\": \x7b\x7d\n    \x7d\n  \x7d\n\x7d\n"))) := by
  intro t m
  exact ⟨by cbv, by cbv⟩

end Monorepo.Workspace
