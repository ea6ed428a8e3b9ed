import SignatureBlob.Execution
import SignatureBlob.Proofs.HexSpelling
import SignatureBlob.Proofs.RoundTrip
import SignatureBlob.Services.Standard

/-!
# Decoding one blob at the command line

What the command prints hangs on the blob alone: on none of the ways in which the blob may be
spelled. For the blob of a signature the command prints the signature and each of its types, so that
nothing of what was encoded is lost between the words and the listing. The statements write out what
is handed to the services, member by member and row by row, and hold for any services.

Main definition: `Report.listed`. Main statement: `Invocation.execute_decode_of_spells`.
-/

namespace SignatureBlob

/-! ## Listings -/

namespace Listing

/-- A text without the blanks at the ends of its lines and without a line break behind the last. -/
def trimmed (text : String) : String :=
  "\n".intercalate ((Blank.closedLines text.toList).map fun line =>
    String.ofList (Blank.trimEnd line))

/-- A table with three columns: one blank on each side of both boundaries, none outside. -/
theorem addRows_three (first second third : String) (rows : List (List String)) :
    addRows (ofHeadings [first, second, third]) rows =
      ⟨[⟨first, .left, 0, 1⟩, ⟨second, .left, 1, 1⟩, ⟨third, .left, 1, 0⟩], rows⟩ := by
  rw [addRows_eq]
  rfl

end Listing

/-! ## Types in their roles -/

namespace Report

/-- Types whose role is counted along them. -/
def numbered (role : String) (types : List TypeSig) : List (String × TypeSig) :=
  types.mapIdx fun index type => (role ++ " " ++ toString index, type)

/-- The types of a signature, each in its role: for a method the result, then the parameters in
front of the sentinel, then those behind it, both counted from zero. -/
def listed : Signature → List (String × TypeSig)
  | .method m =>
    let fixed := m.header.sentinel.getD m.params.length
    ("return", m.result) ::
      (numbered "param" (m.params.take fixed) ++ numbered "vararg" (m.params.drop fixed))
  | .field type => [("field", type)]
  | .property _ type params => ("property", type) :: numbered "param" params
  | .locals types => numbered "local" types
  | .typeSpec type => [("type", type)]
  | .methodSpec args => numbered "arg" args

/-- A role that is counted is told by its word and its number. -/
theorem map_number (role : Nat → Role) (word : String)
    (h : ∀ index, (role index).text = word ++ " " ++ toString index) (types : List TypeSig) :
    (Role.number role types).map (fun part => (part.1.text, part.2)) = numbered word types := by
  simp only [Role.number, numbered, List.mapIdx_eq_zipIdx_map, List.map_map]
  refine List.map_congr_left fun part _ => ?_
  simp only [Function.comp_apply, h]

/-- The roles of a signature in words. -/
theorem map_entries_eq_listed (signature : Signature) :
    signature.entries.map (fun part => (part.1.text, part.2)) = listed signature := by
  have hparam := map_number .param "param" fun _ => rfl
  have hvarArg := map_number .varArg "vararg" fun _ => rfl
  have hlocal := map_number .localVar "local" fun _ => rfl
  have harg := map_number .arg "arg" fun _ => rfl
  cases signature with
  | method m =>
    rw [listed, ← hparam, ← hvarArg, ← m.header.fixedPart_eq_take, ← m.header.varArgPart_eq_drop,
      ← List.map_append]
    rfl
  | field type | typeSpec type => rfl
  | property hasThis type params =>
    rw [listed, ← hparam]
    rfl
  | locals types => exact hlocal types
  | methodSpec args => exact harg args

/-- The report tells each type in its role, by its text and its name. -/
theorem entries_eq_listed (signature : Signature) :
    entries signature =
      (listed signature).map fun part => ⟨part.1, part.2.text, part.2.name .unresolved⟩ := by
  rw [← map_entries_eq_listed, List.map_map]
  rfl

/-- No type is left out, told twice or out of place. -/
theorem map_snd_listed (signature : Signature) :
    (listed signature).map Prod.snd = signature.types := by
  rw [← map_entries_eq_listed, List.map_map]
  rfl

variable {kind : SignatureKind} {size : Nat} {signature : Signature} {error : Error}

/-- The JSON of a signature, member by member. -/
theorem Decoded.toJson_ok :
    (⟨kind, size, .ok signature⟩ : Decoded).toJson = .object [
      ("kind", .string kind.name),
      ("size", .number size),
      ("rendered", .string signature.text),
      ("entries", .array ((listed signature).map fun (role, type) => .object [
        ("role", .string role),
        ("rendered", .string type.text),
        ("name", .string (type.name .unresolved))])),
      ("error", .null)] := by
  simp only [toJson, Decoded.entries, signatureText?, error?, entries_eq_listed, List.map_map]
  rfl

/-- The JSON of a blob without a signature, member by member. -/
theorem Decoded.toJson_error :
    (⟨kind, size, .error error⟩ : Decoded).toJson = .object [
      ("kind", .string kind.name),
      ("size", .number size),
      ("rendered", .null),
      ("entries", .array []),
      ("error", .object [("kind", .string error.kind.name), ("offset", .number error.offset),
        ("message", .string error.message)])] := rfl

/-- The text of a signature and the listing of its types, row by row. -/
theorem Decoded.text_ok (print : Table → String) :
    (⟨kind, size, .ok signature⟩ : Decoded).text print =
      signature.text ++ "\n\n" ++ Listing.trimmed (print {
        columns := [⟨"Position", .left, 0, 1⟩, ⟨"Type", .left, 1, 1⟩, ⟨"Name", .left, 1, 0⟩]
        rows := (listed signature).map fun (role, type) =>
          [role, type.text, type.name .unresolved] }) := by
  simp only [text, table, Decoded.entries, signatureText?, entries_eq_listed, List.map_map,
    Listing.addRows_three]
  rfl

end Report

/-! ## The command -/

namespace Execution

variable (services : Services) (json : Bool) {options : DecodeOptions} {kind : SignatureKind}
  {blob : List UInt8} {signature : Signature}

/-- A signature is printed, and is no failure. -/
theorem ofBlob_of_ok
    (h : ((Signature.decode options kind).run (.start blob)).result = .ok signature) :
    (ofBlob services json options kind blob).output =
        services.emit json (⟨kind, blob.length, .ok signature⟩ : Report.Decoded).toJson
          ((⟨kind, blob.length, .ok signature⟩ : Report.Decoded).text services.table) ∧
      (ofBlob services json options kind blob).failure = [] := by
  simp only [ofBlob, h]
  exact ⟨rfl, rfl⟩

/-- An error is printed in JSON only, and is the failure. -/
theorem ofBlob_of_error {error : Error}
    (h : ((Signature.decode options kind).run (.start blob)).result = .error error) :
    (ofBlob services json options kind blob).output =
        (if json then
          services.json (⟨kind, blob.length, .error error⟩ : Report.Decoded).toJson ++ "\n"
        else "") ∧
      (ofBlob services json options kind blob).failure = [error.message] := by
  simp only [ofBlob, h]
  cases json <;> exact ⟨rfl, rfl⟩

/-- What is logged of a signature that takes a whole blob is only that it is decoded. -/
theorem log_ofBlob_of_run {place : Nat}
    (h : (Signature.decode options kind).run (.start blob) = .ok signature ⟨place, []⟩) :
    (ofBlob services json options kind blob).log =
      [.debug (decodingMessage options kind blob.length)] := by
  rw [ofBlob, h]
  rfl

end Execution

/-- Words that are read as a blob are decoded as that blob. -/
theorem Invocation.execute_decode_of_read {words : List String} {blob : List UInt8}
    (h : HexWords.read words = .ok blob) (services : Services) (json verbose : Bool)
    (options : DecodeOptions) (kind : SignatureKind) (contents : Except FileError String) :
    (mk json verbose options (.decode kind words)).execute services contents =
      .ofBlob services json options kind blob := by
  simp only [execute, Execution.ofWords, h]

/-- The command decodes a signature from each spelling of its blob, strictly or not, within every
limit that admits its depth. It prints the number of bytes, the signature, no error and each type
in its role, in the order in which they were encoded; it fails for nothing and tells of no bytes
left over. -/
theorem Invocation.execute_decode_of_spells {signature : Signature} {blob : List UInt8}
    {options : DecodeOptions} {words : List String} (hencode : signature.encode = .ok blob)
    (hdepth : signature.depth ≤ options.maxDepth) (hspells : HexWords.Spells .digits words blob)
    (services : Services) (json verbose : Bool) (contents : Except FileError String) :
    (Invocation.mk json verbose options (.decode signature.kind words)).execute services
        contents = {
      output :=
        (if json then
          services.json (.object [
            ("kind", .string signature.kind.name),
            ("size", .number blob.length),
            ("rendered", .string signature.text),
            ("entries", .array ((Report.listed signature).map fun (role, type) => .object [
              ("role", .string role),
              ("rendered", .string type.text),
              ("name", .string (type.name .unresolved))])),
            ("error", .null)])
        else
          signature.text ++ "\n\n" ++ Listing.trimmed (services.table {
            columns := [⟨"Position", .left, 0, 1⟩, ⟨"Type", .left, 1, 1⟩, ⟨"Name", .left, 1, 0⟩]
            rows := (Report.listed signature).map fun (role, type) =>
              [role, type.text, type.name .unresolved] })) ++ "\n"
      log := [⟨.debug, "Decoding " ++ toString blob.length ++ " byte(s) as " ++ signature.kind.name
        ++ " signature (max depth " ++ toString options.maxDepth ++ ", strict "
        ++ toString options.strict ++ ")"⟩]
      failure := [] } ∧
    (Report.listed signature).map Prod.snd = signature.types := by
  have hread := (HexWords.spells_digits_iff.1 hspells).1
  have hrun := Signature.run_decode_self (Signature.encode_eq_ok_iff.1 hencode)
    (Nat.le_trans hdepth options.maxDepth_le_limit)
  have hresult := congrArg Outcome.result hrun
  obtain ⟨houtput, hfailure⟩ := Execution.ofBlob_of_ok services json hresult
  refine ⟨?_, Report.map_snd_listed signature⟩
  rw [execute_decode_of_read hread]
  rw [Services.emit, Report.Decoded.toJson_ok, Report.Decoded.text_ok] at houtput
  exact Execution.ext houtput (Execution.log_ofBlob_of_run services json hrun) hfailure

/-- A method whose last parameter is behind the sentinel, its blob cut in three places. -/
theorem Invocation.execute_decode_of_spells_sentinel :
    HexWords.Spells .digits ["0x0502,", " 080e 41", ",0D"] [0x05, 0x02, 0x08, 0x0E, 0x41, 0x0D] ∧
    (mk true false ⟨1, true⟩ (.decode .method ["0x0502,", " 080e 41", ",0D"])).execute .standard
        (.ok "") = {
      output := Json.text (.object [
        ("kind", .string "method"),
        ("size", .number 6),
        ("rendered", .string "vararg int32 (string, ..., float64)"),
        ("entries", .array [
          .object [("role", .string "return"), ("rendered", .string "int32"),
            ("name", .string "System.Int32")],
          .object [("role", .string "param 0"), ("rendered", .string "string"),
            ("name", .string "System.String")],
          .object [("role", .string "vararg 0"), ("rendered", .string "float64"),
            ("name", .string "System.Double")]]),
        ("error", .null)]) ++ "\n"
      log := [.debug "Decoding 6 byte(s) as method signature (max depth 1, strict true)"]
      failure := [] } ∧
    (mk false false ⟨1, true⟩ (.decode .method ["0x0502,", " 080e 41", ",0D"])).execute .standard
        (.ok "") = {
      output := "vararg int32 (string, ..., float64)\n\nPosition  Type     Name\n" ++
        "return    int32    System.Int32\nparam 0   string   System.String\n" ++
        "vararg 0  float64  System.Double\n"
      log := [.debug "Decoding 6 byte(s) as method signature (max depth 1, strict true)"]
      failure := [] } := by
  have hspells : HexWords.Spells .digits ["0x0502,", " 080e 41", ",0D"]
      [0x05, 0x02, 0x08, 0x0E, 0x41, 0x0D] :=
    HexWords.spells_digits_iff.2 ⟨rfl, by decide⟩
  let signature : Signature := .method ⟨{ convention := .varArg, sentinel := some 1 },
    .primitive .int32, [.primitive .string, .primitive .float64]⟩
  have hencode : signature.encode = .ok [0x05, 0x02, 0x08, 0x0E, 0x41, 0x0D] := rfl
  have hdepth : signature.depth ≤ DecodeOptions.maxDepth ⟨1, true⟩ := by decide
  refine ⟨hspells, ?_, ?_⟩
  · exact (execute_decode_of_spells hencode hdepth hspells .standard true false
      (.ok "")).1.trans rfl
  · exact (execute_decode_of_spells hencode hdepth hspells .standard false false (.ok "")).1.trans
      (by decide +kernel)

end SignatureBlob
