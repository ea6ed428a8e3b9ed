import SignatureBlob.Proofs.Grammar

/-!
# Respelling

Derived bytes are respelled by deriving the same value anew: with other forms of its integers, with
other bytes of the types inside, or with both. If a relation holds between the old and the new bytes
of the parts and passes to bytes one behind the other, then it holds between the old and the new
bytes of the whole. Equality is such a relation, and says that derivations depend only on what the
parts derive.

Main statements: `TypeSig.Announces.respell` and `Signature.DerivesWith.respell`, and their cases
`TypeSig.derivesWith_congr` and `Signature.derivesWith_congr`.
-/

namespace SignatureBlob

open CompressedInt

/-! ## Related bytes -/

namespace Grammar

/-- The grammar has bytes that are related to the given ones. -/
def Respells (related : List UInt8 → List UInt8 → Prop) (grammar : List UInt8 → Prop)
    (bytes : List UInt8) : Prop :=
  ∃ spelled, grammar spelled ∧ related spelled bytes

/-- Integers are respelled from one latitude into another, and the relation passes to sequences. -/
structure Respelling (related : List UInt8 → List UInt8 → Prop) (latitude other : Latitude) :
    Prop where
  /-- All bytes are related to themselves. -/
  refl : ∀ bytes, related bytes bytes
  append : ∀ {spelled bytes spelled' bytes'}, related spelled bytes → related spelled' bytes' →
    related (spelled ++ spelled') (bytes ++ bytes')
  unsigned : ∀ {value bytes}, DerivesUnsigned latitude value bytes →
    Respells related (DerivesUnsigned other value) bytes
  signed : ∀ {value bytes}, DerivesSigned latitude value bytes →
    Respells related (DerivesSigned other value) bytes

variable {related : List UInt8 → List UInt8 → Prop} {latitude other : Latitude}

/-- A byte in front stays as it is. -/
theorem Respelling.cons (h : Respelling related latitude other) (byte : UInt8)
    {spelled bytes : List UInt8} (hspelled : related spelled bytes) :
    related (byte :: spelled) (byte :: bytes) :=
  h.append (h.refl [byte]) hspelled

/-- Bytes stay as they are where the other latitude admits what the one admits. -/
theorem respelling_of_admits
    (hadmits : ∀ form best, latitude.Admits form best → other.Admits form best) :
    Respelling Eq latitude other where
  refl _ := rfl
  append := by
    rintro _ _ _ _ rfl rfl
    rfl
  unsigned := by
    rintro _ _ ⟨wide, admitted⟩
    exact ⟨_, .intro wide (hadmits _ _ admitted), rfl⟩
  signed := by
    rintro _ _ ⟨wide, admitted⟩
    exact ⟨_, .intro wide (hadmits _ _ admitted), rfl⟩

/-- Within one latitude all bytes may stay as they are. -/
theorem respelling_eq (latitude : Latitude) : Respelling Eq latitude latitude :=
  respelling_of_admits fun _ _ admitted => admitted

/-- The forms that the narrower grammar has are forms of the wider. -/
theorem respelling_wideEnough (latitude : Latitude) : Respelling Eq latitude .wideEnough :=
  respelling_of_admits fun _ _ _ => trivial

/-- A list is respelled member by member. -/
theorem Each.respell {α : Type} {item item' : α → List UInt8 → Prop} {values : List α}
    {bytes : List UInt8} (hspelling : Respelling related latitude other)
    (h : Each item values bytes)
    (hitem : ∀ value ∈ values, ∀ bytes, item value bytes → Respells related (item' value) bytes) :
    Respells related (Each item' values) bytes := by
  induction h with
  | nil => exact ⟨[], .nil, hspelling.refl []⟩
  | cons head _ ih =>
    rw [List.forall_mem_cons] at hitem
    obtain ⟨_, hhead, hfront⟩ := hitem.1 _ head
    obtain ⟨_, htail, hback⟩ := ih hitem.2
    exact ⟨_, .cons hhead htail, hspelling.append hfront hback⟩

/-- What follows from the bytes of each member holds of all members. -/
theorem Each.forall {α : Type} {item : α → List UInt8 → Prop} {P : α → Prop} {values : List α}
    {bytes : List UInt8} (hitem : ∀ value bytes, item value bytes → P value)
    (h : Each item values bytes) : ∀ value ∈ values, P value := by
  induction h with
  | nil => simp
  | cons head _ ih => exact List.forall_mem_cons.2 ⟨hitem _ _ head, ih⟩

end Grammar

open Grammar

variable {related : List UInt8 → List UInt8 → Prop} {latitude other : Latitude}
  {inner inner' : TypeSig → List UInt8 → Prop} {P : TypeSig → Prop} {bytes : List UInt8}

/-! ## Tokens and array shapes -/

/-- A token is respelled by respelling its code. -/
theorem CodedToken.Derives.respell {token : Token} (hspelling : Respelling related latitude other)
    (h : CodedToken.Derives latitude token bytes) :
    Respells related (CodedToken.Derives other token) bytes := by
  obtain ⟨narrow, coded⟩ := h
  obtain ⟨_, hcoded, hrelated⟩ := hspelling.unsigned coded
  exact ⟨_, .intro narrow hcoded, hrelated⟩

/-- The shape of an array is respelled number by number. -/
theorem ArrayShape.Derives.respell {shape : ArrayShape}
    (hspelling : Respelling related latitude other) (h : shape.Derives latitude bytes) :
    Respells related (shape.Derives other) bytes := by
  obtain ⟨positive, bounded, fewSizes, fewBounds, ranked, sizeCount, eachSize, boundCount,
    eachBound⟩ := h
  obtain ⟨_, hranked, hfirst⟩ := hspelling.unsigned ranked
  obtain ⟨_, hsizeCount, hsecond⟩ := hspelling.unsigned sizeCount
  obtain ⟨_, heachSize, hthird⟩ :=
    eachSize.respell hspelling fun _ _ _ h => hspelling.unsigned h
  obtain ⟨_, hboundCount, hfourth⟩ := hspelling.unsigned boundCount
  obtain ⟨_, heachBound, hfifth⟩ := eachBound.respell hspelling fun _ _ _ h => hspelling.signed h
  exact ⟨_, .intro positive bounded fewSizes fewBounds hranked hsizeCount heachSize hboundCount
      heachBound, hspelling.append hfirst (hspelling.append hsecond
        (hspelling.append hthird (hspelling.append hfourth hfifth)))⟩

/-! ## Methods -/

/-- The header of a method is respelled by respelling its number of type parameters. -/
theorem MethodHeader.Derives.respell {header : MethodHeader}
    (hspelling : Respelling related latitude other) (h : header.Derives latitude bytes) :
    Respells related (header.Derives other) bytes := by
  cases h with
  | plain led flag none => exact ⟨_, .plain led flag none, hspelling.refl _⟩
  | generic led flag counted =>
    obtain ⟨_, hcounted, hrelated⟩ := hspelling.unsigned counted
    exact ⟨_, .generic led flag hcounted, hspelling.cons _ hrelated⟩

namespace MethodSig

/-- Parameters are respelled one by one, and the mark stays in its place. -/
theorem DerivesParams.respell {sentinel : Option Nat} {params : List TypeSig}
    (hspelling : Respelling related latitude other)
    (h : DerivesParams inner sentinel params bytes)
    (hinner : ∀ param ∈ params, ∀ bytes, inner param bytes →
      Respells related (inner' param) bytes) :
    Respells related (DerivesParams inner' sentinel params) bytes := by
  cases h with
  | fixed each =>
    obtain ⟨_, heach, hrelated⟩ := each.respell hspelling hinner
    exact ⟨_, .fixed heach, hrelated⟩
  | varArgs before behind nonempty =>
    rw [List.forall_mem_append] at hinner
    obtain ⟨_, hbefore, hfront⟩ := before.respell hspelling hinner.1
    obtain ⟨_, hbehind, hback⟩ := behind.respell hspelling hinner.2
    exact ⟨_, .varArgs hbefore hbehind nonempty, hspelling.append hfront (hspelling.cons _ hback)⟩

/-- What follows from the bytes of each parameter holds of all parameters. -/
theorem DerivesParams.forall {sentinel : Option Nat} {params : List TypeSig}
    (h : DerivesParams inner sentinel params bytes)
    (hinner : ∀ type bytes, inner type bytes → P type) : ∀ param ∈ params, P param := by
  cases h with
  | fixed each => exact each.forall hinner
  | varArgs before behind nonempty =>
    exact List.forall_mem_append.2 ⟨before.forall hinner, behind.forall hinner⟩

/-- A method is respelled part by part. -/
theorem DerivesWith.respell {method : MethodSig} (hspelling : Respelling related latitude other)
    (h : method.DerivesWith latitude inner bytes)
    (hinner : ∀ type ∈ method.result :: method.params, ∀ bytes, inner type bytes →
      Respells related (inner' type) bytes) :
    Respells related (method.DerivesWith other inner') bytes := by
  obtain ⟨headed, counted, returned, listed, admitted⟩ := h
  rw [List.forall_mem_cons] at hinner
  obtain ⟨_, hheaded, hfirst⟩ := headed.respell hspelling
  obtain ⟨_, hcounted, hsecond⟩ := hspelling.unsigned counted
  obtain ⟨_, hreturned, hthird⟩ := hinner.1 _ returned
  obtain ⟨_, hlisted, hfourth⟩ := listed.respell hspelling hinner.2
  exact ⟨_, .intro hheaded hcounted hreturned hlisted admitted,
    hspelling.append hfirst (hspelling.append hsecond (hspelling.append hthird hfourth))⟩

/-- What follows from the bytes of each type in a method holds of all of them. -/
theorem DerivesWith.forall {method : MethodSig} (hinner : ∀ type bytes, inner type bytes → P type)
    (h : method.DerivesWith latitude inner bytes) :
    ∀ type ∈ method.result :: method.params, P type := by
  obtain ⟨_, _, returned, listed, _⟩ := h
  exact List.forall_mem_cons.2 ⟨hinner _ _ returned, listed.forall hinner⟩

end MethodSig

/-! ## Types -/

namespace TypeSig

/-- What an element type announces is respelled part by part. -/
theorem Announces.respell {element : ElementType} {type : TypeSig}
    (hspelling : Respelling related latitude other)
    (h : Announces latitude inner element type bytes)
    (hinner : ∀ child ∈ type.children, ∀ bytes, inner child bytes →
      Respells related (inner' child) bytes) :
    Respells related (Announces other inner' element type) bytes := by
  cases h with
  | primitive kind => exact ⟨_, .primitive kind, hspelling.refl _⟩
  | classType coded =>
    obtain ⟨_, hcoded, hrelated⟩ := coded.respell hspelling
    exact ⟨_, .classType hcoded, hrelated⟩
  | valueType coded =>
    obtain ⟨_, hcoded, hrelated⟩ := coded.respell hspelling
    exact ⟨_, .valueType hcoded, hrelated⟩
  | vector nested =>
    obtain ⟨_, hnested, hrelated⟩ := hinner _ List.mem_cons_self _ nested
    exact ⟨_, .vector hnested, hrelated⟩
  | array nested shaped =>
    obtain ⟨_, hnested, hfront⟩ := hinner _ List.mem_cons_self _ nested
    obtain ⟨_, hshaped, hback⟩ := shaped.respell hspelling
    exact ⟨_, .array hnested hshaped, hspelling.append hfront hback⟩
  | pointer nested =>
    obtain ⟨_, hnested, hrelated⟩ := hinner _ List.mem_cons_self _ nested
    exact ⟨_, .pointer hnested, hrelated⟩
  | byRef nested =>
    obtain ⟨_, hnested, hrelated⟩ := hinner _ List.mem_cons_self _ nested
    exact ⟨_, .byRef hnested, hrelated⟩
  | typeParameter counted =>
    obtain ⟨_, hcounted, hrelated⟩ := hspelling.unsigned counted
    exact ⟨_, .typeParameter hcounted, hrelated⟩
  | methodParameter counted =>
    obtain ⟨_, hcounted, hrelated⟩ := hspelling.unsigned counted
    exact ⟨_, .methodParameter hcounted, hrelated⟩
  | instantiation coded nonempty counted each =>
    obtain ⟨_, hcoded, hfirst⟩ := coded.respell hspelling
    obtain ⟨_, hcounted, hsecond⟩ := hspelling.unsigned counted
    obtain ⟨_, heach, hthird⟩ := each.respell hspelling hinner
    exact ⟨_, .instantiation hcoded nonempty hcounted heach,
      hspelling.cons _ (hspelling.append hfirst (hspelling.append hsecond hthird))⟩
  | functionPointer method =>
    obtain ⟨_, hmethod, hrelated⟩ := method.respell hspelling hinner
    exact ⟨_, .functionPointer hmethod, hrelated⟩
  | requiredModifier coded nested =>
    obtain ⟨_, hcoded, hfront⟩ := coded.respell hspelling
    obtain ⟨_, hnested, hback⟩ := hinner _ List.mem_cons_self _ nested
    exact ⟨_, .requiredModifier hcoded hnested, hspelling.append hfront hback⟩
  | optionalModifier coded nested =>
    obtain ⟨_, hcoded, hfront⟩ := coded.respell hspelling
    obtain ⟨_, hnested, hback⟩ := hinner _ List.mem_cons_self _ nested
    exact ⟨_, .optionalModifier hcoded hnested, hspelling.append hfront hback⟩
  | pinned nested =>
    obtain ⟨_, hnested, hrelated⟩ := hinner _ List.mem_cons_self _ nested
    exact ⟨_, .pinned hnested, hrelated⟩

/-- What follows from the bytes of each type inside holds of all of them. -/
theorem Announces.forall {element : ElementType} {type : TypeSig}
    (h : Announces latitude inner element type bytes)
    (hinner : ∀ type bytes, inner type bytes → P type) : ∀ child ∈ type.children, P child := by
  cases h with
  | primitive | classType | valueType | typeParameter | methodParameter => simp [children]
  | vector nested | pointer nested | byRef nested | pinned nested | array nested
  | requiredModifier _ nested | optionalModifier _ nested =>
    simpa [children] using hinner _ _ nested
  | instantiation _ _ _ each => exact each.forall hinner
  | functionPointer method => exact method.forall hinner

/-- A type is respelled by respelling what its element type announces. -/
theorem DerivesWith.respell {type : TypeSig} (hspelling : Respelling related latitude other)
    (h : type.DerivesWith latitude inner bytes)
    (hinner : ∀ child ∈ type.children, ∀ bytes, inner child bytes →
      Respells related (inner' child) bytes) :
    Respells related (type.DerivesWith other inner') bytes := by
  obtain ⟨announced⟩ := h
  obtain ⟨_, hannounced, hrelated⟩ := announced.respell hspelling hinner
  exact ⟨_, .intro hannounced, hspelling.cons _ hrelated⟩

/-- The bytes of a type are respelled by respelling its integers. -/
theorem Derives.respell {type : TypeSig} (hspelling : Respelling related latitude other)
    (h : type.Derives latitude bytes) : Respells related (type.Derives other) bytes := by
  induction type using induction_on_children generalizing bytes with
  | step type ih =>
    obtain ⟨spelled, hderives, hrelated⟩ :=
      (derives_iff.1 h).respell hspelling fun child hchild _ h => ih child hchild h
    exact ⟨spelled, derives_iff.2 hderives, hrelated⟩

/-- A type is derived alike from relations that agree on the types inside. -/
theorem derivesWith_congr {type : TypeSig}
    (hiff : ∀ child ∈ type.children, ∀ bytes, inner child bytes ↔ inner' child bytes) :
    type.DerivesWith latitude inner bytes ↔ type.DerivesWith latitude inner' bytes := by
  constructor
  · intro h
    obtain ⟨_, hderives, rfl⟩ := h.respell (respelling_eq latitude)
      fun child hchild bytes h => ⟨bytes, (hiff child hchild bytes).1 h, rfl⟩
    exact hderives
  · intro h
    obtain ⟨_, hderives, rfl⟩ := h.respell (respelling_eq latitude)
      fun child hchild bytes h => ⟨bytes, (hiff child hchild bytes).2 h, rfl⟩
    exact hderives

/-- A type whose inner types have a property is a type derived from inner types that have it. -/
theorem derivesWith_and_iff {type : TypeSig} :
    type.DerivesWith latitude (fun type bytes => inner type bytes ∧ P type) bytes ↔
      type.DerivesWith latitude inner bytes ∧ ∀ child ∈ type.children, P child := by
  have hcongr : (∀ child ∈ type.children, P child) →
      (type.DerivesWith latitude (fun type bytes => inner type bytes ∧ P type) bytes ↔
        type.DerivesWith latitude inner bytes) :=
    fun hchildren => derivesWith_congr fun child hchild _ => and_iff_left (hchildren child hchild)
  constructor
  · intro h
    have hchildren : ∀ child ∈ type.children, P child := by
      obtain ⟨announced⟩ := h
      exact announced.forall fun _ _ h => h.2
    exact ⟨(hcongr hchildren).1 h, hchildren⟩
  · rintro ⟨h, hchildren⟩
    exact (hcongr hchildren).2 h

end TypeSig

/-! ## Signatures -/

namespace Signature

/-- A signature is respelled part by part. -/
theorem DerivesWith.respell {signature : Signature} (hspelling : Respelling related latitude other)
    (h : signature.DerivesWith latitude inner bytes)
    (hinner : ∀ type ∈ signature.types, ∀ bytes, inner type bytes →
      Respells related (inner' type) bytes) :
    Respells related (signature.DerivesWith other inner') bytes := by
  cases h with
  | method derived =>
    rw [types_method] at hinner
    obtain ⟨_, hderived, hrelated⟩ := derived.respell hspelling hinner
    exact ⟨_, .method hderived, hrelated⟩
  | field derived =>
    obtain ⟨_, hderived, hrelated⟩ := hinner _ List.mem_cons_self _ derived
    exact ⟨_, .field hderived, hspelling.cons _ hrelated⟩
  | property counted derived each =>
    rw [types_property, List.forall_mem_cons] at hinner
    obtain ⟨_, hcounted, hfirst⟩ := hspelling.unsigned counted
    obtain ⟨_, hderived, hsecond⟩ := hinner.1 _ derived
    obtain ⟨_, heach, hthird⟩ := each.respell hspelling hinner.2
    exact ⟨_, .property hcounted hderived heach,
      hspelling.cons _ (hspelling.append hfirst (hspelling.append hsecond hthird))⟩
  | locals nonempty counted each =>
    rw [types_locals] at hinner
    obtain ⟨_, hcounted, hfront⟩ := hspelling.unsigned counted
    obtain ⟨_, heach, hback⟩ := each.respell hspelling hinner
    exact ⟨_, .locals nonempty hcounted heach, hspelling.cons _ (hspelling.append hfront hback)⟩
  | typeSpec derived =>
    obtain ⟨_, hderived, hrelated⟩ := hinner _ List.mem_cons_self _ derived
    exact ⟨_, .typeSpec hderived, hrelated⟩
  | methodSpec nonempty counted each =>
    rw [types_methodSpec] at hinner
    obtain ⟨_, hcounted, hfront⟩ := hspelling.unsigned counted
    obtain ⟨_, heach, hback⟩ := each.respell hspelling hinner
    exact ⟨_, .methodSpec nonempty hcounted heach,
      hspelling.cons _ (hspelling.append hfront hback)⟩

/-- What follows from the bytes of each type of a signature holds of all of them. -/
theorem DerivesWith.forall {signature : Signature}
    (h : signature.DerivesWith latitude inner bytes)
    (hinner : ∀ type bytes, inner type bytes → P type) : ∀ type ∈ signature.types, P type := by
  cases h with
  | method derived =>
    rw [types_method]
    exact derived.forall hinner
  | field derived | typeSpec derived => simpa using hinner _ _ derived
  | property _ derived each =>
    rw [types_property, List.forall_mem_cons]
    exact ⟨hinner _ _ derived, each.forall hinner⟩
  | locals _ _ each =>
    rw [types_locals]
    exact each.forall hinner
  | methodSpec _ _ each =>
    rw [types_methodSpec]
    exact each.forall hinner

/-- The bytes of a signature are respelled by respelling its integers. -/
theorem Derives.respell {signature : Signature} (hspelling : Respelling related latitude other)
    (h : signature.Derives latitude bytes) : Respells related (signature.Derives other) bytes :=
  DerivesWith.respell hspelling h fun _ _ _ h => h.respell hspelling

/-- A signature is derived alike from relations that agree on its types. -/
theorem derivesWith_congr {signature : Signature}
    (hiff : ∀ type ∈ signature.types, ∀ bytes, inner type bytes ↔ inner' type bytes) :
    signature.DerivesWith latitude inner bytes ↔ signature.DerivesWith latitude inner' bytes := by
  constructor
  · intro h
    obtain ⟨_, hderives, rfl⟩ := h.respell (respelling_eq latitude)
      fun type htype bytes h => ⟨bytes, (hiff type htype bytes).1 h, rfl⟩
    exact hderives
  · intro h
    obtain ⟨_, hderives, rfl⟩ := h.respell (respelling_eq latitude)
      fun type htype bytes h => ⟨bytes, (hiff type htype bytes).2 h, rfl⟩
    exact hderives

/-- A signature whose types have a property is a signature derived from types that have it. -/
theorem derivesWith_and_iff {signature : Signature} :
    signature.DerivesWith latitude (fun type bytes => inner type bytes ∧ P type) bytes ↔
      signature.DerivesWith latitude inner bytes ∧ ∀ type ∈ signature.types, P type := by
  have hcongr : (∀ type ∈ signature.types, P type) →
      (signature.DerivesWith latitude (fun type bytes => inner type bytes ∧ P type) bytes ↔
        signature.DerivesWith latitude inner bytes) :=
    fun htypes => derivesWith_congr fun type htype _ => and_iff_left (htypes type htype)
  constructor
  · intro h
    have htypes : ∀ type ∈ signature.types, P type := h.forall fun _ _ h => h.2
    exact ⟨(hcongr htypes).1 h, htypes⟩
  · rintro ⟨h, htypes⟩
    exact (hcongr htypes).2 h

end Signature

end SignatureBlob
