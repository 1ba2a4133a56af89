import Classfile.Proofs.Class.Repetition
import Classfile.Proofs.StackMap

/-!
# Lowered classes

Every part of a class is lowered to something that resolves, in the constants written at the end, to
the description of the part.
-/

namespace Classfile

open Classfile.Action Pool Description Emission Reader

/-! ### Attributes -/

/-- A lowered attribute is named after its kind and holds the bytes of its body. -/
theorem denotes_toAttribute (body : Layout.AttributeBody) :
    Denotes body.toAttribute fun constants a =>
      textAt? constants a.name = some body.kind.name ∧ (emit body).toBytes = .ok a.info := by
  refine (denotes_addUtf8 body.kind.name).bind
    (fun _ => moves_bind (moves_ofExcept _) fun _ => moves_pure _) fun name => ?_
  intro pool pool' a constants h _ hname
  rw [gives_ofExcept_bind] at h
  obtain ⟨info, hinfo, h⟩ := h
  obtain ⟨rfl, -⟩ := gives_pure.mp h
  exact ⟨hname, hinfo⟩

theorem openAttribute_eq_some {α : Type} {constants : List Constant} (kind : AttributeKind)
    {reader : Reader α} {a : Layout.Attribute} {body : α} {e : Emission}
    (hname : textAt? constants a.name = some kind.name) (hinfo : e.toBytes = .ok a.info)
    (hreader : Restores reader e body) : openAttribute constants kind reader a = some body := by
  unfold toBytes at hinfo
  split at hinfo
  · next hstop =>
    injection hinfo with hinfo
    simp only [openAttribute, hname, Option.bind_eq_bind, Option.bind_some, if_true]
    rw [← hinfo]
    exact whole_of_reads (hreader hstop)
  · cases hinfo

theorem denotes_stackMap (frames : Array Frame) :
    Denotes (StackMap.lower frames)
      (Shows resolveStackMap ((StackMap.selected frames.toList).mapM Frame.describe?)) := by
  refine (StackMap.denotes_compress frames.toList).bind (fun _ => (repeats_toAttribute _).moves)
    fun entries => ?_
  intro pool pool' a constants h hwithin
  rintro ⟨described, hframes, hentries⟩
  obtain ⟨hname, hinfo⟩ := denotes_toAttribute _ h hwithin
  have hopen := openAttribute_eq_some .stackMapTable hname hinfo
    (restores_list Layout.restores_readStackMapFrame entries)
  refine ⟨described, hframes, ?_⟩
  obtain ⟨resolved, hresolved, rfl⟩ := Option.map_eq_some_iff.mp hentries
  simp [resolveStackMap, hopen, hresolved]

theorem denotes_lowerEntry (outer : String) (entry : InnerClassEntry) :
    Denotes (InnerClasses.lowerEntry outer entry) fun constants lowered =>
      resolveInnerClass constants lowered =
        some ⟨entry.fileName, outer, entry.name, entry.flags⟩ := by
  refine (denotes_addClass entry.fileName).bind (fun _ => ((repeats_addClass _).bind fun _ =>
    (repeats_addUtf8 _).bind fun _ => repeats_pure _).moves) fun inner => ?_
  refine (denotes_addClass outer).bind (fun _ => ((repeats_addUtf8 _).bind fun _ =>
    repeats_pure _).moves) fun outer => ?_
  refine (denotes_addUtf8 entry.name).bind (fun _ => moves_pure _) fun name =>
    denotes_pure fun constants hname houter hinner => ?_
  simp [resolveInnerClass, hname, houter, hinner]

theorem denotes_innerClasses (list : InnerClasses) :
    Denotes list.lower fun constants a => resolveInnerClasses constants a = some list.describe := by
  refine (denotes_traverse_map (fun entry => (repeats_lowerEntry _ entry).moves)
    (denotes_lowerEntry _) _).bind (fun _ => (repeats_toAttribute _).moves) fun entries => ?_
  intro pool pool' a constants h hwithin hentries
  obtain ⟨hname, hinfo⟩ := denotes_toAttribute _ h hwithin
  have hopen := openAttribute_eq_some .innerClasses hname hinfo
    (restores_list Layout.restores_readInnerClass entries)
  simp [resolveInnerClasses, hopen, hentries, InnerClasses.describe]

/-! ### Bodies -/

theorem denotes_lowerAttributes (body : Body) :
    Denotes body.lowerAttributes (Shows (fun constants attributes =>
      attributes.mapM (resolveStackMap constants)) (body.table.toList.mapM fun frames =>
        (StackMap.selected frames.toList).mapM Frame.describe?)) := by
  unfold Body.lowerAttributes
  cases body.table with
  | none => exact denotes_pure fun _ => ⟨[], rfl, rfl⟩
  | some frames =>
    refine (denotes_stackMap frames).bind (fun _ => moves_pure _) fun a =>
      denotes_pure fun constants => ?_
    rintro ⟨described, hframes, ha⟩
    exact ⟨[described], by simp [hframes], by simp [ha]⟩

theorem shows_of_gives_lowerAttribute {body next : Body} {pool pool' : Pool} {a : Layout.Attribute}
    {constants : List Constant} (h : Gives Body.lowerAttribute (body, pool) a (next, pool'))
    (hwithin : pool'.Within constants) : Shows resolveCode body.describe? constants a := by
  obtain ⟨layout, ⟨_, mid⟩, hlower, ha⟩ := gives_bind.mp h
  obtain ⟨rfl, ha⟩ := gives_onSnd.mp ha
  obtain ⟨bytes, attributes, hbytes, rfl, hattributes, rfl⟩ := Body.gives_lower_iff.mp hlower
  obtain ⟨hname, hinfo⟩ := denotes_toAttribute _ ha hwithin
  have hmid := ((repeats_toAttribute _).moves.of_gives ha).within hwithin
  obtain ⟨maps, hmaps, hmaps'⟩ := denotes_lowerAttributes _ hattributes hmid
  have hopen := openAttribute_eq_some .code hname hinfo (Layout.restores_readCode _)
  refine ⟨⟨body.maxStack, body.maxLocals, bytes, maps⟩, ?_, ?_⟩
  · rw [Body.settle] at hmaps
    cases htable : body.table <;>
      simp_all [Body.describe?, Except.toOption]
  · dsimp only at hmaps'
    simp [resolveCode, hopen, hmaps']

/-! ### Members -/

theorem denotes_field (field : Field) :
    Denotes field.lower fun constants lowered =>
      resolveField constants lowered = some field.describe := by
  refine (denotes_addUtf8 field.name).bind
    (fun _ => ((repeats_addUtf8 _).bind fun _ => repeats_pure _).moves) fun name => ?_
  refine (denotes_addUtf8 field.type.render).bind (fun _ => moves_pure _) fun descriptor =>
    denotes_pure fun constants hdescriptor hname => ?_
  simp [resolveField, hname, hdescriptor, Field.describe]

theorem shows_of_gives_lowerBody {body next : Option Body} {pool pool' : Pool}
    {attributes : List Layout.Attribute} {constants : List Constant}
    (h : Gives Method.lowerBody (body, pool) attributes (next, pool'))
    (hwithin : pool'.Within constants) :
    Shows (fun constants attributes => attributes.mapM (resolveCode constants))
      (body.toList.mapM Body.describe?) constants attributes := by
  cases body with
  | none =>
    obtain ⟨⟨rfl⟩, ⟨⟩⟩ := h
    exact ⟨[], rfl, rfl⟩
  | some body =>
    obtain ⟨a, last, ha, rfl, -⟩ := Method.gives_lowerBody_some.mp h
    obtain ⟨code, hbody, hcode⟩ := shows_of_gives_lowerAttribute ha hwithin
    exact ⟨[code], by simp [hbody], by simp [hcode]⟩

theorem shows_of_gives_method {method next : Method} {pool pool' : Pool} {lowered : Layout.Method}
    {constants : List Constant} (h : Gives Method.lower (method, pool) lowered (next, pool'))
    (hwithin : pool'.Within constants) :
    Shows resolveMethod method.describe? constants lowered := by
  obtain ⟨body, hparts, -⟩ := Method.gives_lower.mp h
  obtain ⟨name, ⟨_, _⟩, hname, hparts⟩ := gives_bind.mp hparts
  obtain ⟨rfl, hname⟩ := gives_onSnd.mp hname
  obtain ⟨descriptor, ⟨_, _⟩, hdescriptor, hparts⟩ := gives_bind.mp hparts
  obtain ⟨rfl, hdescriptor⟩ := gives_onSnd.mp hdescriptor
  obtain ⟨attributes, hattributes, rfl⟩ := gives_bind_pure.mp hparts
  have hlast := (Method.repeats_lowerBody.moves.of_gives hattributes).2.within hwithin
  have hmid := ((repeats_addUtf8 method.type.render).moves.of_gives hdescriptor).within hlast
  have hdescriptor := denotes_addUtf8 _ hdescriptor hlast
  have hname := denotes_addUtf8 _ hname hmid
  obtain ⟨bodies, hbodies, hattributes⟩ := shows_of_gives_lowerBody hattributes hwithin
  dsimp only at hname hdescriptor hattributes
  exact ⟨⟨method.flags, method.name, method.type.render, bodies⟩,
    by simp [Method.describe?, hbodies],
    by simp [resolveMethod, hname, hdescriptor, hattributes]⟩

theorem shows_of_gives_methods {methods final : List Method} {pool pool' : Pool}
    {lowered : List Layout.Method} {constants : List Constant}
    (h : Gives (traverseStates Method.lower) (methods, pool) lowered (final, pool'))
    (hwithin : pool'.Within constants) :
    Shows (fun constants lowered => lowered.mapM (resolveMethod constants))
      (methods.mapM Method.describe?) constants lowered := by
  induction methods generalizing pool lowered final with
  | nil =>
    obtain ⟨rfl, rfl, rfl⟩ := gives_traverseStates_nil.mp h
    exact ⟨[], rfl, rfl⟩
  | cons method rest ih =>
    obtain ⟨first, _, mid, more, _, hfirst, hmore, rfl, rfl⟩ := gives_traverseStates_cons h
    have hgrows := ((repeats_traverseStates Method.repeats_lower).moves.of_gives hmore).2
    obtain ⟨entry, hentry, hentry'⟩ := shows_of_gives_method hfirst (hgrows.within hwithin)
    obtain ⟨entries, hentries, hentries'⟩ := ih hmore
    dsimp only at hentry' hentries'
    exact ⟨entry :: entries, by simp [hentry, hentries], by simp [hentry', hentries']⟩

/-! ### The class -/

namespace Class

variable {α : Type}

@[simps]
def withMethods (c : Class) (methods : Registry Method.key) (pool : Pool) : Class :=
  { c with methods, pool }

@[simp]
theorem lowerAttributes_withPool (c : Class) (pool : Pool) :
    (c.withPool pool).lowerAttributes = c.lowerAttributes := rfl

@[simp]
theorem lowerAttributes_withMethods (c : Class) (methods : Registry Method.key) (pool : Pool) :
    (c.withMethods methods pool).lowerAttributes = c.lowerAttributes := rfl

theorem gives_lowerMethods {c c' : Class} {lowered : List Layout.Method}
    (h : Gives lowerMethods c lowered c') :
    ∃ (methods : Registry Method.key) (pool : Pool),
      Gives (traverseStates Method.lower) (c.methods.toList, c.pool) lowered
        (methods.toList, pool) ∧ c.withMethods methods pool = c' := by
  obtain ⟨hresult, rfl⟩ := h
  exact ⟨_, _, ⟨hresult, rfl⟩, rfl⟩

/-- The parts of a class file, and the pools between them. -/
theorem gives_lower {c c' : Class} {file : Layout.ClassFile} (h : Gives lower c file c') :
    ∃ p₁ p₂ p₃ p₄ p₅ methods, Gives (addClass c.name) c.pool file.this p₁ ∧
      Gives (addClass c.parent) p₁ file.parent p₂ ∧
      Gives (Action.traverse addClass c.interfaces.toList) p₂ file.interfaces p₃ ∧
      Gives (Action.traverse Field.lower c.fields.toList) p₃ file.fields p₄ ∧
      Gives (traverseStates Method.lower) (c.methods.toList, p₄) file.methods (methods, p₅) ∧
      Gives c.lowerAttributes p₅ file.attributes file.pool ∧
      file.version = c.version ∧ file.flags = c.flags := by
  rw [lower, gives_gets_bind] at h
  obtain ⟨this, _, hrun, h⟩ := gives_bind.mp h
  obtain ⟨p₁, hthis, rfl⟩ := gives_onPool.mp hrun
  rw [gives_gets_bind] at h
  obtain ⟨parent, _, hrun, h⟩ := gives_bind.mp h
  obtain ⟨p₂, hparent, rfl⟩ := gives_onPool.mp hrun
  rw [gives_gets_bind] at h
  obtain ⟨interfaces, _, hrun, h⟩ := gives_bind.mp h
  obtain ⟨p₃, hinterfaces, rfl⟩ := gives_onPool.mp hrun
  rw [gives_gets_bind] at h
  obtain ⟨fields, _, hrun, h⟩ := gives_bind.mp h
  obtain ⟨p₄, hfields, rfl⟩ := gives_onPool.mp hrun
  obtain ⟨methods, _, hrun, h⟩ := gives_bind.mp h
  obtain ⟨registry, p₅, hmethods, rfl⟩ := gives_lowerMethods hrun
  obtain ⟨attributesOf, _, hof, h⟩ := gives_bind.mp h
  obtain ⟨rfl, rfl⟩ := gives_gets.mp hof
  obtain ⟨attributes, _, hrun, h⟩ := gives_bind.mp h
  obtain ⟨p₆, hattributes, rfl⟩ := gives_onPool.mp hrun
  obtain ⟨hfile, -⟩ := gives_gets.mp h
  simp only [withPool_parent, withPool_interfaces, withPool_fields, withPool_methods, withPool_pool,
    withPool_version, withPool_flags, withMethods_pool, withMethods_version, withMethods_flags,
    lowerAttributes_withPool, lowerAttributes_withMethods]
    at hfile hparent hinterfaces hfields hmethods hattributes
  subst hfile
  exact ⟨p₁, p₂, p₃, p₄, p₅, registry.toList, hthis, hparent, hinterfaces, hfields, hmethods,
    hattributes, rfl, rfl⟩

theorem denotes_lowerAttributes (c : Class) :
    Denotes c.lowerAttributes fun constants attributes =>
      attributes.mapM (resolveInnerClasses constants) =
        some (c.innerClasses.toList.map InnerClasses.describe) := by
  unfold lowerAttributes
  cases c.innerClasses with
  | none => exact denotes_pure fun _ => rfl
  | some list =>
    refine (denotes_innerClasses list).bind (fun _ => moves_pure _) fun a =>
      denotes_pure fun constants ha => ?_
    simp [ha]

/-- A lowered class resolves to the description of the class, if its pool can be written. -/
theorem resolve_of_gives_lower {c c' : Class} {file : Layout.ClassFile}
    (h : Gives lower c file c') (hsize : file.pool.size < 0xFFFF) :
    ∃ description, c.describe? = some description ∧ resolve file.image = some description := by
  obtain ⟨p₁, p₂, p₃, p₄, p₅, _, hthis, hparent, hinterfaces, hfields, hmethods, hattributes,
    hversion, hflags⟩ := gives_lower h
  -- Every index is looked up in the last pool, so the pools are compared from the end.
  have h₆ : file.pool.Within file.pool.toList := ⟨List.prefix_rfl, hsize⟩
  have h₅ := ((repeats_lowerAttributes _).moves.of_gives hattributes).within h₆
  have h₄ := ((repeats_traverseStates Method.repeats_lower).moves.of_gives hmethods).2.within h₅
  have h₃ := ((repeats_traverse repeats_field _).moves.of_gives hfields).within h₄
  have h₂ := ((repeats_traverse repeats_addClass _).moves.of_gives hinterfaces).within h₃
  have h₁ := ((repeats_addClass _).moves.of_gives hparent).within h₂
  obtain ⟨entries, hentries, hmethods⟩ := shows_of_gives_methods hmethods h₅
  have hthis := denotes_addClass _ hthis h₁
  have hparent := denotes_addClass _ hparent h₂
  have hinterfaces := denotes_traverse_map (fun name => (repeats_addClass name).moves)
    denotes_addClass _ hinterfaces h₃
  have hfields := denotes_traverse_map (fun field => (repeats_field field).moves)
    denotes_field _ hfields h₄
  have hattributes := denotes_lowerAttributes _ hattributes h₆
  refine ⟨⟨c.version, c.flags, c.name, c.parent, c.interfaces.toList,
    c.fields.toList.map Field.describe, entries, c.innerClasses.toList.map InnerClasses.describe⟩,
    by simp [describe?, hentries], ?_⟩
  dsimp only at hthis hparent hinterfaces hfields hmethods hattributes
  rw [List.map_id'] at hinterfaces
  simp [resolve, Layout.ClassFile.image, hthis, hparent, hinterfaces, hfields, hmethods,
    hattributes, hversion, hflags]

end Class

end Classfile
