import Classfile.Proofs.Class.Call
import Classfile.Proofs.Registry

/-!
# Generated class files

The bytes generated for a class are read back as the description of what was added to it, call by
call.
-/

namespace Classfile

def Method.bare (method : Method) : Method := { method with body := none }

namespace Class

open Classfile.Action Reader Emission

/-! ### What a history says -/

namespace Part

def interface? : Part → Option String
  | interface name => some name
  | _ => none

def field? : Part → Option Field
  | field f => some f
  | _ => none

def method? : Part → Option Method
  | method m => some m
  | _ => none

def nest (entries : Option (List InnerClassEntry)) : Part → Option (List InnerClassEntry)
  | innerClasses => some []
  | nested entry => entries.map (· ++ [entry])
  | _ => entries

end Part

/-- The description of a class with the given parts, once the bodies of its methods are known. -/
def describeParts? (name parent : String) (flags : Flags .type) (parts : List Part)
    (body? : MemberKey → Option Body) : Option Description := do
  let methods := (parts.filterMap Part.method?).map fun method =>
    { method with body := body? method.key }
  return {
    version := ⟨58, 0⟩
    flags, name, parent
    methods := ← methods.mapM Method.describe?
    interfaces := (parts.filterMap Part.interface?).eraseDups
    fields := (parts.filterMap Part.field?).map fun field =>
      ⟨field.flags, field.name, field.type.render, []⟩
    nested := (parts.foldl Part.nest none).toList.map fun entries =>
      entries.map fun entry => ⟨entry.fileName, name, entry.name, entry.flags⟩ }

/-! ### What a change does to each part -/

theorem toList_addInterface (c : Class) (name : String) :
    (c.addInterface name).interfaces.toList =
      if name ∈ c.interfaces.toList then c.interfaces.toList
      else c.interfaces.toList ++ [name] := by
  have hfind : c.interfaces.find? name = none ↔ name ∉ c.interfaces.toList := by
    rw [Registry.find?_eq_none_iff, Registry.toList, Array.mem_toList_iff]
    exact ⟨fun h hmem => h name hmem rfl, fun h other hmem heq => h (heq ▸ hmem)⟩
  unfold addInterface
  split
  · next fresh =>
    rw [if_neg (hfind.mp fresh), Registry.toList_push]
  · next hold => rw [if_pos (Decidable.not_not.mp (hfind.not.mp hold))]

namespace Change

variable {c c' : Class} {part : Option Part}

theorem header (h : Change c part c') :
    c'.name = c.name ∧ c'.parent = c.parent ∧ c'.flags = c.flags ∧ c'.version = c.version := by
  cases h with
  | interface name =>
    unfold addInterface
    split <;> exact ⟨rfl, rfl, rfl, rfl⟩
  | _ => exact ⟨rfl, rfl, rfl, rfl⟩

theorem interfaces (h : Change c part c') {names : List String}
    (hnames : c.interfaces.toList = names.eraseDups) :
    c'.interfaces.toList = (names ++ (part.bind Part.interface?).toList).eraseDups := by
  cases h with
  | interface name =>
    rw [toList_addInterface, hnames]
    by_cases hmem : name ∈ names
    · simp [Part.interface?, List.eraseDups_append, List.removeAll, hmem]
    · simp [Part.interface?, List.eraseDups_append, List.removeAll, hmem]
      rfl
  | body hlocate hpart =>
    obtain ⟨rfl, -⟩ | ⟨rfl, -⟩ := hpart <;> simpa [Part.interface?] using hnames
  | _ => simpa [Part.interface?, modifyInnerClasses] using hnames

theorem fields (h : Change c part c') :
    c'.fields.toList = c.fields.toList ++ (part.bind Part.field?).toList := by
  cases h with
  | interface name =>
    unfold addInterface
    split <;> simp [Part.field?]
  | field fresh => simp [Registry.toList_push, Part.field?]
  | body hlocate hpart =>
    obtain ⟨rfl, -⟩ | ⟨rfl, -⟩ := hpart <;> simp [Part.field?]
  | _ => simp [Part.field?, modifyInnerClasses]

theorem methods (h : Change c part c') :
    c'.methods.toList.map Method.bare =
      c.methods.toList.map Method.bare ++ (part.bind Part.method?).toList := by
  cases h with
  | interface name =>
    unfold addInterface
    split <;> simp [Part.method?]
  | @method method fresh hbody =>
    have hbare : method.bare = method := by rw [Method.bare, ← hbody]
    simp [Registry.toList_push, Part.method?, hbare]
  | @body key position method body part pool hlocate hpart =>
    have hbare : (c.methods.modify position (fun method => { method with body })
        fun _ => rfl).toList.map Method.bare = c.methods.toList.map Method.bare :=
      Registry.map_toList_modify position fun _ => rfl
    obtain ⟨rfl, -⟩ | ⟨rfl, -⟩ := hpart <;> simp [Part.method?, hbare]
  | _ => simp [Part.method?, modifyInnerClasses]

theorem nestedClasses (h : Change c part c') {name : String} (hname : c.name = name)
    {entries : Option (List InnerClassEntry)}
    (hentries : c.innerClasses = entries.map fun entries => ⟨name, entries.toArray⟩) :
    c'.innerClasses = (part.toList.foldl Part.nest entries).map fun entries =>
      ⟨name, entries.toArray⟩ := by
  cases h with
  | interface name =>
    unfold addInterface
    split <;> simpa [Part.nest] using hentries
  | innerClasses => simp [Part.nest, InnerClasses.start, hname]
  | nested entry =>
    cases entries <;> simp [Part.nest, modifyInnerClasses, hentries, InnerClasses.add]
  | body hlocate hpart =>
    obtain ⟨rfl, -⟩ | ⟨rfl, -⟩ := hpart <;> simpa [Part.nest] using hentries
  | _ => simpa [Part.nest] using hentries

end Change

/-! ### Classes along a run -/

/-- The class is what its history says. -/
structure Built (name parent : String) (flags : Flags .type) (parts : List Part) (c : Class) :
    Prop where
  header : c.name = name ∧ c.parent = parent ∧ c.flags = flags ∧ c.version = .java14
  interfaces : c.interfaces.toList = (parts.filterMap Part.interface?).eraseDups
  fields : c.fields.toList = parts.filterMap Part.field?
  methods : c.methods.toList.map Method.bare = parts.filterMap Part.method?
  nested : c.innerClasses = (parts.foldl Part.nest none).map fun entries =>
    ⟨name, entries.toArray⟩
  bodies : ∀ method ∈ c.methods.toList, method.body.isSome ↔ .body method.key ∈ parts
  /-- Bodies are those of methods that are there. -/
  keys : ∀ key, .body key ∈ parts → ∃ method ∈ c.methods.toList, method.key = key

namespace Built

variable {name parent : String} {flags : Flags .type} {parts : List Part} {c c' : Class}
  {part : Option Part}

theorem start (name parent : String) (flags : Flags .type) :
    Built name parent flags [] (.start name parent flags) where
  header := ⟨rfl, rfl, rfl, rfl⟩
  interfaces := rfl
  fields := rfl
  methods := rfl
  nested := rfl
  bodies := by simp [Class.start, Registry.toList, Registry.empty]
  keys := by simp

theorem bodies_method (h : Built name parent flags parts c) {method : Method}
    (fresh : c.methods.find? method.key = none) (hbody : method.body = none) :
    (∀ m ∈ c.methods.toList ++ [method], m.body.isSome ↔ .body m.key ∈ parts) ∧
      ∀ key, .body key ∈ parts → ∃ m ∈ c.methods.toList ++ [method], m.key = key := by
  have hnew : .body method.key ∉ parts := by
    intro hmem
    obtain ⟨other, hother, hkey⟩ := h.keys _ hmem
    exact Registry.find?_eq_none_iff.mp fresh other (Array.mem_toList_iff.mp hother) hkey
  constructor
  · intro m hm
    rw [List.mem_append, List.mem_singleton] at hm
    obtain hm | rfl := hm
    · exact h.bodies m hm
    · simp [hbody, hnew]
  · intro key hmem
    obtain ⟨m, hm, hkey⟩ := h.keys key hmem
    exact ⟨m, List.mem_append_left _ hm, hkey⟩

/-- Only the method in question gets a body, and its key tells it from all others. -/
theorem bodies_body (h : Built name parent flags parts c) {key : MemberKey} {position : Nat}
    {method : Method} {body : Option Body} {methods : Registry Method.key}
    (hlocate : c.methods.locate? key = some (position, method))
    (hmethods : methods = c.methods.modify position (fun m => { m with body }) fun _ => rfl)
    (hpart : part = some (.body key) ∧ body.isSome ∨
      part = none ∧ body.isSome = method.body.isSome) :
    (∀ m ∈ methods.toList, m.body.isSome ↔ .body m.key ∈ parts ++ part.toList) ∧
      ∀ k, .body k ∈ parts ++ part.toList → ∃ m ∈ methods.toList, m.key = k := by
  obtain ⟨hposition, hkey⟩ := Registry.locate?_eq_some_iff.mp hlocate
  have hmethod := List.mem_of_getElem? hposition
  have hkeys : methods.toList.map Method.key = c.methods.toList.map Method.key :=
    hmethods ▸ Registry.map_toList_modify position fun _ => rfl
  constructor
  · intro m hm
    obtain ⟨i, hi⟩ := List.mem_iff_getElem?.mp hm
    rw [hmethods] at hi
    replace hi := (Registry.getElem?_toList_modify position i).symm.trans hi
    split at hi
    · next heq =>
      rw [← heq, hposition] at hi
      cases hi
      have hold := h.bodies method hmethod
      obtain ⟨rfl, hsome⟩ | ⟨rfl, hsame⟩ := hpart
      · simp [hsome, ← hkey, Method.key]
      · simpa [hsame, Method.key] using hold
    · next hne =>
      have hold := h.bodies m (List.mem_of_getElem? hi)
      obtain ⟨rfl, -⟩ | ⟨rfl, -⟩ := hpart
      · have hother : m.key ≠ key := fun heq =>
          hne (Registry.position_unique hposition hi (hkey.trans heq.symm)).1
        simpa [hother] using hold
      · simpa using hold
  · intro k hk
    suffices hmem : k ∈ c.methods.toList.map Method.key by
      rw [← hkeys] at hmem
      exact List.mem_map.mp hmem
    rw [List.mem_append] at hk
    obtain hk | hk := hk
    · exact List.mem_map.mpr (h.keys k hk)
    · obtain ⟨rfl, -⟩ | ⟨rfl, -⟩ := hpart
      · cases List.mem_singleton.mp hk
        exact List.mem_map.mpr ⟨method, hmethod, hkey⟩
      · cases hk

theorem bodies_change (h : Built name parent flags parts c) (hchange : Change c part c') :
    (∀ method ∈ c'.methods.toList, method.body.isSome ↔ .body method.key ∈ parts ++ part.toList) ∧
      ∀ key, .body key ∈ parts ++ part.toList → ∃ method ∈ c'.methods.toList, method.key = key := by
  cases hchange with
  | method fresh hbody => simpa [Registry.toList_push] using h.bodies_method fresh hbody
  | body hlocate hpart => exact h.bodies_body hlocate rfl hpart
  | interface name =>
    unfold addInterface
    split <;> simpa using ⟨h.bodies, h.keys⟩
  | _ => simpa [modifyInnerClasses] using ⟨h.bodies, h.keys⟩

theorem change (h : Built name parent flags parts c) (hchange : Change c part c') :
    Built name parent flags (parts ++ part.toList) c' := by
  obtain ⟨hname, hparent, hflags, hversion⟩ := h.header
  obtain ⟨hname', hparent', hflags', hversion'⟩ := hchange.header
  obtain ⟨hbodies, hkeys⟩ := h.bodies_change hchange
  refine ⟨⟨hname'.trans hname, hparent'.trans hparent, hflags'.trans hflags,
    hversion'.trans hversion⟩, ?_, ?_, ?_, ?_, hbodies, hkeys⟩
  · rw [hchange.interfaces h.interfaces, List.filterMap_append]
    cases part with
    | none => rfl
    | some part => cases hpart : part.interface? <;> simp [hpart]
  · rw [hchange.fields, h.fields, List.filterMap_append]
    cases part with
    | none => rfl
    | some part => cases hpart : part.field? <;> simp [hpart]
  · rw [hchange.methods, h.methods, List.filterMap_append]
    cases part with
    | none => rfl
    | some part => cases hpart : part.method? <;> simp [hpart]
  · rw [hchange.nestedClasses hname h.nested, List.foldl_append]

end Built

/-- The parts that the accepted calls of a run have added. -/
def history (calls : List Call) (c : Class) : List Part :=
  (Run.steps Call.run calls c).filterMap added?

theorem built_final (name parent : String) (flags : Flags .type) (calls : List Call) :
    Built name parent flags (history calls (.start name parent flags))
      (Run.final Call.run calls (.start name parent flags)) := by
  refine Run.invariant Call.run (Q := fun _ => True)
    (P := fun made c => Built name parent flags (made.filterMap added?) c)
    (fun made step hmade _ => ?_) (.start name parent flags) fun _ _ => trivial
  have hnext : Built _ _ _ _ (step.after Call.run) :=
    hmade.change (change_run step.call step.before)
  rw [List.filterMap_append, List.filterMap_cons, List.filterMap_nil]
  cases hadded : added? step with
  | none => simpa [hadded] using hnext
  | some part => simpa [hadded] using hnext

def body? (c : Class) (key : MemberKey) : Option Body := (c.methods.get? key).bind Method.body

theorem body?_key {c : Class} {method : Method} (h : method ∈ c.methods.toList) :
    c.body? method.key = method.body := by
  rw [body?, Registry.get?_key h]
  rfl

/-- The methods with a body are those that a call made one for. -/
theorem Built.isSome_body? {name parent : String} {flags : Flags .type} {parts : List Part}
    {c : Class} (h : Built name parent flags parts c) {method : Method}
    (hmethod : .method method ∈ parts) :
    (c.body? method.key).isSome ↔ .body method.key ∈ parts := by
  have hmem : method ∈ c.methods.toList.map Method.bare := by
    rw [h.methods]
    exact List.mem_filterMap.mpr ⟨_, hmethod, rfl⟩
  obtain ⟨held, hheld, rfl⟩ := List.mem_map.mp hmem
  change (c.body? held.key).isSome ↔ .body held.key ∈ parts
  rw [body?_key hheld]
  exact h.bodies held hheld

theorem Built.describe? {name parent : String} {flags : Flags .type} {parts : List Part} {c : Class}
    (h : Built name parent flags parts c) :
    c.describe? = describeParts? name parent flags parts c.body? := by
  obtain ⟨hname, hparent, hflags, hversion⟩ := h.header
  have hmethods : ((parts.filterMap Part.method?).map fun method =>
      { method with body := c.body? method.key }) = c.methods.toList := by
    rw [← h.methods, List.map_map]
    refine (List.map_congr_left fun method hmem => ?_).trans (List.map_id _)
    change { method.bare with body := c.body? method.key } = method
    rw [body?_key hmem]
    rfl
  rw [Class.describe?, describeParts?, hmethods, h.interfaces, h.fields, h.nested, hname, hparent,
    hflags, hversion]
  cases parts.foldl Part.nest none <;> rfl

/-- A pool that is written counts its constants in two bytes. -/
theorem size_of_stop_eq_none {file : Layout.ClassFile} (h : (emit file).stop = none) :
    file.pool.size < 0xFFFF := by
  have hcheck : (check file.pool.count fun count => emit count ++ (emit file.pool ++
      (emit file.flags ++ (emit file.this ++ (emit file.parent ++ (emit file.interfaces ++
        (emit file.fields ++ (emit file.methods ++ emit file.attributes)))))))).stop = none :=
    (stop_append.mp (stop_append.mp h).2).2
  cases hcount : file.pool.count with
  | error e =>
    rw [hcount] at hcheck
    cases hcheck
  | ok count =>
    have hlt := (fitValue_eq_ok_iff.mp hcount).1
    omega

theorem read_of_generate {c : Class} {bytes : List UInt8} (h : (generate c).result = .ok bytes) :
    ∃ description, c.describe? = some description ∧ Description.read bytes = some description := by
  obtain ⟨file, mid, hfile, h⟩ := gives_bind.mp (gives_of_result h)
  rw [gives_ofExcept_bind] at h
  obtain ⟨output, houtput, h⟩ := h
  rw [gives_gets_bind, gives_report_bind, gives_pure] at h
  obtain ⟨rfl, -⟩ := h
  obtain ⟨hstop, rfl⟩ : (emit file).stop = none ∧ (emit file).written = output := by
    rw [toBytes] at houtput
    split at houtput
    · next hstop => exact ⟨hstop, Except.ok.inj houtput⟩
    · cases houtput
  obtain ⟨description, hdescribe, hresolve⟩ :=
    resolve_of_gives_lower hfile (size_of_stop_eq_none hstop)
  refine ⟨description, hdescribe, ?_⟩
  rw [Description.read, whole_of_reads (Layout.restores_readImage file hstop)]
  exact hresolve

/-- The bytes generated for a class are read to their end as the description of the parts that were
added to it, and the methods with code are those for which a body was made. -/
theorem read_generate (name parent : String) (flags : Flags .type) (calls : List Call)
    {bytes : List UInt8}
    (h : (generate (Run.final Call.run calls (.start name parent flags))).result = .ok bytes) :
    let c := Run.final Call.run calls (.start name parent flags)
    let parts := history calls (.start name parent flags)
    (∃ description, Description.read bytes = some description ∧
      describeParts? name parent flags parts c.body? = some description) ∧
    ∀ method, .method method ∈ parts →
      ((c.body? method.key).isSome ↔ .body method.key ∈ parts) := by
  intro c parts
  have hbuilt : Built name parent flags parts c := built_final name parent flags calls
  obtain ⟨description, hdescribe, hread⟩ := read_of_generate h
  rw [hbuilt.describe?] at hdescribe
  exact ⟨⟨description, hread, hdescribe⟩, fun method hmethod => hbuilt.isSome_body? hmethod⟩

/-- Members and interfaces in mixed order, names outside of ASCII, refused calls, a method with a
jump and one without code. -/
def counterCalls : List Call :=
  [.interface "Runnable", .addConstant (.utf8 "é"),
    .method "count" ⟨[.int], some .int⟩ (.truncate .method 0x0009), .interface "Comparable",
    .field "größe" .int (.truncate .field 0x0002), .interface "Runnable",
    .method "count" ⟨[.int], some .int⟩ (.truncate .method 0x0001),
    .attach .innerClasses, .nest ⟨"Counter$Part", "Part", .truncate .nested 0x0008⟩,
    .code "count" ⟨[.int], some .int⟩
      [.addStackMap, .push (.load .int 0), .branch (.ifZero .eq ⟨0⟩), .push (.increment 0 (-1)),
        .push .pop, .place ⟨0⟩, .push (.load .int 0), .branch (.leave (some .int))],
    .method "stop" ⟨[], none⟩ (.truncate .method 0x0401), .attachToField "größe" .int .code]

def counterDescription : Description where
  version := ⟨58, 0⟩
  flags := .truncate .type 0x0021
  name := "Counter"
  parent := "java/lang/Object"
  interfaces := ["Runnable", "Comparable"]
  fields := [⟨.truncate .field 0x0002, "größe", "I", []⟩]
  methods :=
    [⟨.truncate .method 0x0009, "count", "(I)I",
        [⟨1, 1, [26, 153, 0, 6, 132, 0, 255, 26, 172], [[⟨7, [.integer], []⟩]]⟩]⟩,
      ⟨.truncate .method 0x0401, "stop", "()V", []⟩]
  nested := [[⟨"Counter$Part", "Counter", "Part", .truncate .nested 0x0008⟩]]

theorem read_generate_counter : ∃ bytes,
    (generate (Run.final Call.run counterCalls
      (.start "Counter" "java/lang/Object" (.truncate .type 0x0021)))).result = .ok bytes ∧
    Description.read bytes = some counterDescription := by
  obtain ⟨bytes, hbytes⟩ : ∃ bytes, (generate (Run.final Call.run counterCalls
      (.start "Counter" "java/lang/Object" (.truncate .type 0x0021)))).result = .ok bytes :=
    ⟨_, rfl⟩
  obtain ⟨⟨description, hread, hparts⟩, -⟩ := read_generate _ _ _ counterCalls hbytes
  have hdescription : some counterDescription = some description :=
    Eq.trans (by decide +kernel) hparts
  exact ⟨bytes, hbytes, hread.trans hdescription.symm⟩

end Class

end Classfile
