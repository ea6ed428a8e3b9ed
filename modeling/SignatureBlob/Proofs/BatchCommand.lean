import SignatureBlob.Proofs.DecodeCommand
import SignatureBlob.Proofs.LineReading

/-!
# Decoding a file at the command line

A line of a file gives what it gives when it is decoded by itself, whatever stands in the other
lines, and is printed under its number. Only a line that is not even hexadecimal stops the others,
and then nothing is printed at all.

Main definition: `Report.Batched.Agrees`. Main statement: `Invocation.execute_batch`.
-/

namespace SignatureBlob

/-! ## Reports on files -/

namespace Listing

/-- A table with two columns, the first aligned on the right: one blank on each side of the
boundary, none outside. -/
theorem addRows_two (first second : String) (rows : List (List String)) :
    addRows (alignRight 0 (ofHeadings [first, second])) rows =
      ⟨[⟨first, .right, 0, 1⟩, ⟨second, .left, 1, 0⟩], rows⟩ := by
  rw [addRows_eq]
  rfl

end Listing

namespace Report.Batched

variable {options : DecodeOptions} {contents : String} {blobs : List (Nat × List UInt8)}

/-- What decoding numbered blobs gives. -/
def results (options : DecodeOptions) (blobs : List (Nat × List UInt8)) :
    List (Nat × Except Error MethodSig) :=
  blobs.map fun (number, blob) => (number, ((MethodSig.decode options).run (.start blob)).result)

/-- The numbers that are given back to the results are those of the blobs. -/
theorem zip_decode (options : DecodeOptions) (blobs : List (Nat × List UInt8)) :
    (blobs.map Prod.fst).zip (MethodBatch.decode options (blobs.map Prod.snd)) =
      results options blobs := by
  rw [MethodBatch.decode, List.map_map, List.zip_map']
  rfl

/-- Each result has the number of its blob. -/
theorem map_fst_results (options : DecodeOptions) (blobs : List (Nat × List UInt8)) :
    (results options blobs).map Prod.fst = blobs.map Prod.fst := by
  rw [results, List.map_map]
  rfl

/-! ### Counts -/

/-- Failures are the results that are not methods. -/
theorem failures_eq_countP (entries : List (Nat × Except Error MethodSig)) :
    MethodBatch.failures (entries.map Prod.snd) = entries.countP fun entry => !entry.2.isOk := by
  rw [MethodBatch.failures, List.countP_map]
  congr 1
  funext (number, result)
  cases result <;> rfl

/-- Each entry is counted once. -/
theorem countP_add_countP (entries : List (Nat × Except Error MethodSig)) :
    (entries.countP fun entry => entry.2.isOk) + (entries.countP fun entry => !entry.2.isOk) =
      entries.length := by
  have hsum := List.length_eq_countP_add_countP (l := entries) fun entry => entry.2.isOk
  simp only [Bool.not_eq_true, Bool.decide_eq_false] at hsum
  exact hsum.symm

/-- The lines that are no failures are the methods. -/
theorem decoded_eq_countP (entries : List (Nat × Except Error MethodSig)) :
    decoded ⟨entries⟩ = entries.countP fun entry => entry.2.isOk := by
  rw [decoded, failed, failures_eq_countP, ← countP_add_countP]
  exact Nat.add_sub_cancel _ _

/-! ### What is printed -/

/-- The JSON of a report, member by member. -/
theorem toJson_eq (entries : List (Nat × Except Error MethodSig)) :
    toJson ⟨entries⟩ = .object [
      ("decoded", .number (entries.countP fun entry => entry.2.isOk)),
      ("failed", .number (entries.countP fun entry => !entry.2.isOk)),
      ("entries", .array (entries.map fun (number, result) =>
        match result with
        | .ok method => .object [("line", .number number), ("rendered", .string method.text),
          ("error", .null)]
        | .error error => .object [("line", .number number), ("rendered", .null),
          ("error", .object [("kind", .string error.kind.name), ("offset", .number error.offset),
            ("message", .string error.message)])]))] := by
  rw [toJson, decoded_eq_countP, failed, failures_eq_countP]
  congr 6
  refine List.map_congr_left fun (number, result) _ => ?_
  cases result <;> rfl

/-- The listing of a report, row by row. -/
theorem table_eq (entries : List (Nat × Except Error MethodSig)) :
    table ⟨entries⟩ = {
      columns := [⟨"Line", .right, 0, 1⟩, ⟨"Signature", .left, 1, 0⟩]
      rows := entries.map fun (number, result) =>
        [toString number, match result with
          | .ok method => method.text
          | .error error => "error: " ++ error.message] } := by
  rw [table, Listing.addRows_two]
  congr 1

/-! ### Agreement with lines that are decoded alone -/

/-- One entry for each line of a file that should hold a blob, under its number and in order, which
tells what the command prints when it decodes that line alone: the same signature or the same error,
in JSON with all that an error consists of, in the listing with its message. -/
structure Agrees (services : Services) (options : DecodeOptions) (contents : String)
    (entries : List (Nat × Except Error MethodSig)) : Prop where
  /-- The entries come in the order of their lines, and none comes twice. -/
  pairwise_lt : (entries.map Prod.fst).Pairwise (· < ·)
  /-- The entries are those of the lines that should hold a blob. -/
  mem_iff : ∀ number, number ∈ entries.map Prod.fst ↔ ∃ line, HexLines.Live contents number line
  /-- Each entry is the one that its line gives alone. -/
  alone : ∀ number line, HexLines.Live contents number line →
    ∃ blob result, HexWords.read [line] = .ok blob ∧ (number, result) ∈ entries ∧
      ∀ (json verbose : Bool) (other : Except FileError String),
        let execution :=
          (Invocation.mk json verbose options (.decode .method [line])).execute services other
        match result with
        | .ok method =>
          execution.output =
            (if json then
              services.json (.object [
                ("kind", .string "method"),
                ("size", .number blob.length),
                ("rendered", .string method.text),
                ("entries", .array ((listed (.method method)).map fun (role, type) => .object [
                  ("role", .string role),
                  ("rendered", .string type.text),
                  ("name", .string (type.name .unresolved))])),
                ("error", .null)])
            else
              method.text ++ "\n\n" ++ Listing.trimmed (services.table {
                columns := [⟨"Position", .left, 0, 1⟩, ⟨"Type", .left, 1, 1⟩, ⟨"Name", .left, 1, 0⟩]
                rows := (listed (.method method)).map fun (role, type) =>
                  [role, type.text, type.name .unresolved] })) ++ "\n" ∧
          execution.failure = []
        | .error error =>
          execution.output =
            (if json then
              services.json (.object [
                ("kind", .string "method"),
                ("size", .number blob.length),
                ("rendered", .null),
                ("entries", .array []),
                ("error", .object [("kind", .string error.kind.name),
                  ("offset", .number error.offset), ("message", .string error.message)])]) ++ "\n"
            else "") ∧
          execution.failure = [error.message]

/-- The results of a file that can be read agree with its lines. -/
theorem agrees_results (h : HexLines.read contents = .ok blobs) (services : Services)
    (options : DecodeOptions) : Agrees services options contents (results options blobs) where
  pairwise_lt := by
    rw [map_fst_results]
    exact HexLines.pairwise_of_read_eq_ok h
  mem_iff number := by
    rw [map_fst_results]
    constructor
    · intro hnumber
      obtain ⟨⟨_, blob⟩, hmem, rfl⟩ := List.mem_map.1 hnumber
      obtain ⟨line, hlive, -⟩ := (HexLines.mem_of_read_eq_ok h).1 hmem
      exact ⟨line, hlive⟩
    · rintro ⟨line, hlive⟩
      obtain ⟨blob, hread⟩ := HexLines.exists_read_eq_ok_iff.1 ⟨blobs, h⟩ number line hlive
      exact List.mem_map_of_mem ((HexLines.mem_of_read_eq_ok h).2 ⟨line, hlive, hread⟩)
  alone number line hlive := by
    obtain ⟨blob, hread⟩ := HexLines.exists_read_eq_ok_iff.1 ⟨blobs, h⟩ number line hlive
    have hmem := (HexLines.mem_of_read_eq_ok h).2 ⟨line, hlive, hread⟩
    refine ⟨blob, _, hread, List.mem_map_of_mem hmem, fun json verbose other => ?_⟩
    rw [Invocation.execute_decode_of_read hread]
    have hsingle : ((Signature.decode options .method).run (.start blob)).result =
        ((MethodSig.decode options).run (.start blob)).result.map .method := by
      rw [Signature.run_decode_method, Outcome.result_map]
    cases hresult : ((MethodSig.decode options).run (.start blob)).result with
    | ok method =>
      rw [hresult] at hsingle
      have hprinted := Execution.ofBlob_of_ok services json hsingle
      rwa [Services.emit, Decoded.toJson_ok, Decoded.text_ok] at hprinted
    | error error =>
      rw [hresult] at hsingle
      have hprinted := Execution.ofBlob_of_error services json hsingle
      rwa [Decoded.toJson_error] at hprinted

end Report.Batched

/-! ## The command -/

namespace Execution

variable (services : Services) (json : Bool) (options : DecodeOptions) (path : String)
  {contents : String}

/-- What is logged of each failure among entries, which are counted from zero here. -/
theorem failureNotes_map_snd (entries : List (Nat × Except Error MethodSig)) :
    MethodBatch.failureNotes (entries.map Prod.snd) =
      (entries.zipIdx.filterMap fun ((_, result), index) =>
        match result with
        | .ok _ => none
        | .error error => some
            ⟨.trace, "Method signature #" ++ toString index ++ " failed: " ++ error.message⟩) := by
  rw [MethodBatch.failureNotes, List.zipIdx_map, List.filterMap_map]
  congr 1
  funext ((number, result), index)
  cases result <;> rfl

/-- What is logged of a batch, message by message. -/
theorem log_eq (entries : List (Nat × Except Error MethodSig)) :
    MethodBatch.log services.interleave (entries.map Prod.snd) =
      .debug ("Decoding " ++ toString entries.length ++ " method signature(s)") ::
        (services.interleave (MethodBatch.failureNotes (entries.map Prod.snd)) ++
          [.debug ("Decoded method signatures - "
            ++ toString (entries.countP fun entry => !entry.2.isOk) ++ " failed")]) := by
  rw [MethodBatch.log, List.length_map, Report.Batched.failures_eq_countP]

/-- The counts of a report in words. -/
theorem summary_eq (entries : List (Nat × Except Error MethodSig)) :
    Report.Batched.summary ⟨entries⟩ =
      toString (entries.countP fun entry => entry.2.isOk) ++ " decoded, "
        ++ toString (entries.countP fun entry => !entry.2.isOk) ++ " failed" := by
  rw [Report.Batched.summary, Report.Batched.decoded_eq_countP, Report.Batched.failed,
    Report.Batched.failures_eq_countP]

/-- Blobs are reported by the results that they give under their numbers. -/
theorem ofBlobs_eq {options : DecodeOptions} (blobs : List (Nat × List UInt8))
    {entries : List (Nat × Except Error MethodSig)}
    (h : Report.Batched.results options blobs = entries) :
    ofBlobs services json options path blobs = {
      output := services.emit json (Report.Batched.toJson ⟨entries⟩)
        (Listing.render services.table (Report.Batched.table ⟨entries⟩))
      log := .debug ("Read " ++ toString entries.length ++ " blob(s) from " ++ path)
        :: (MethodBatch.log services.interleave (entries.map Prod.snd)
          ++ [.info (Report.Batched.summary ⟨entries⟩)]) } := by
  subst h
  have hresults : (Report.Batched.results options blobs).map Prod.snd =
      MethodBatch.decode options (blobs.map Prod.snd) := by
    rw [Report.Batched.results, MethodBatch.decode, List.map_map, List.map_map]
    rfl
  rw [ofBlobs, Report.Batched.zip_decode, hresults, Report.Batched.results, List.length_map]

/-- A file whose lines can be read is decoded line by line. -/
theorem ofFile_of_read {blobs : List (Nat × List UInt8)} (h : HexLines.read contents = .ok blobs) :
    ofFile services json options path (.ok contents) =
      ofBlobs services json options path blobs := by
  simp only [ofFile, h]

/-- A file with a line that cannot be read is a failure. -/
theorem ofFile_of_read_error {error : LineError} (h : HexLines.read contents = .error error) :
    ofFile services json options path (.ok contents) = { failure := error.messages } := by
  simp only [ofFile, h]

end Execution

/-- A file with lines that can all be read is printed entry by entry as each line gives it when it
is decoded by itself as a method, and the log tells the same counts and each failure once; any other
file gives nothing but a failure, which tells the number of the first line that cannot be read. -/
theorem Invocation.execute_batch (services : Services) (json verbose : Bool)
    (options : DecodeOptions) (path contents : String) :
    ((∀ number line, HexLines.Live contents number line →
        ∃ blob, HexWords.read [line] = .ok blob) →
      ∃ (entries : List (Nat × Except Error MethodSig)) (decoded failed : Nat)
        (notes : List LogEntry),
        (mk json verbose options (.batch path)).execute services (.ok contents) = {
          output :=
            (if json then
              services.json (.object [
                ("decoded", .number decoded),
                ("failed", .number failed),
                ("entries", .array (entries.map fun (number, result) =>
                  match result with
                  | .ok method => .object [("line", .number number),
                    ("rendered", .string method.text), ("error", .null)]
                  | .error error => .object [("line", .number number), ("rendered", .null),
                    ("error", .object [("kind", .string error.kind.name),
                      ("offset", .number error.offset), ("message", .string error.message)])]))])
            else
              Listing.trimmed (services.table {
                columns := [⟨"Line", .right, 0, 1⟩, ⟨"Signature", .left, 1, 0⟩]
                rows := entries.map fun (number, result) =>
                  [toString number, match result with
                    | .ok method => method.text
                    | .error error => "error: " ++ error.message] })) ++ "\n"
          log :=
            [⟨.debug, "Read " ++ toString entries.length ++ " blob(s) from " ++ path⟩,
              ⟨.debug, "Decoding " ++ toString entries.length ++ " method signature(s)"⟩]
            ++ notes ++
            [⟨.debug, "Decoded method signatures - " ++ toString failed ++ " failed"⟩,
              ⟨.info, toString decoded ++ " decoded, " ++ toString failed ++ " failed"⟩]
          failure := [] } ∧
        decoded = (entries.countP fun entry => entry.2.isOk) ∧
        failed = (entries.countP fun entry => !entry.2.isOk) ∧
        decoded + failed = entries.length ∧
        notes.Perm (entries.zipIdx.filterMap fun ((_, result), index) =>
          match result with
          | .ok _ => none
          | .error error => some
              ⟨.trace, "Method signature #" ++ toString index ++ " failed: " ++ error.message⟩) ∧
        Report.Batched.Agrees services options contents entries) ∧
    ((∃ number line, HexLines.Live contents number line ∧
        ¬ ∃ blob, HexWords.read [line] = .ok blob) →
      ∃ number line error, HexLines.Live contents number line ∧
        HexWords.read [line] = .error error ∧
        (∀ number' line', number' < number → HexLines.Live contents number' line' →
          ∃ blob, HexWords.read [line'] = .ok blob) ∧
        (mk json verbose options (.batch path)).execute services (.ok contents) = {
          output := ""
          log := []
          failure := ("line " ++ toString number) :: error.messages }) := by
  constructor
  · intro hread
    obtain ⟨blobs, hblobs⟩ := HexLines.exists_read_eq_ok_iff.2 hread
    -- from here on the entries stand for all that is said of the lines
    have hagrees := Report.Batched.agrees_results hblobs services options
    generalize hentries : Report.Batched.results options blobs = entries at hagrees
    have hperm := services.perm_interleave (MethodBatch.failureNotes (entries.map Prod.snd))
    have hexecute := (Execution.ofFile_of_read services json options path hblobs).trans
      (Execution.ofBlobs_eq services json path blobs hentries)
    rw [Services.emit, Report.Batched.toJson_eq, Report.Batched.table_eq, Execution.log_eq,
      Execution.summary_eq] at hexecute
    rw [List.cons_append, List.append_assoc] at hexecute
    rw [Execution.failureNotes_map_snd] at hperm hexecute
    refine ⟨entries, entries.countP fun entry => entry.2.isOk,
      entries.countP fun entry => !entry.2.isOk, services.interleave _, ?_, rfl, rfl,
      Report.Batched.countP_add_countP entries, hperm, hagrees⟩
    refine hexecute.trans (Execution.ext ?_ ?_ rfl)
    · rfl
    · rfl
  · rintro ⟨number, line, hlive, hline⟩
    cases hfile : HexLines.read contents with
    | ok blobs =>
      exact absurd (HexLines.exists_read_eq_ok_iff.1 ⟨blobs, hfile⟩ number line hlive) hline
    | error error =>
      obtain ⟨bad, hbad, hread, hearlier⟩ := HexLines.exists_of_read_eq_error hfile
      exact ⟨error.line, bad, error.error, hbad, hread, hearlier,
        Execution.ofFile_of_read_error services json options path hfile⟩

/-- A file with a comment, a blank line and a blob that ends too early, and one with a line that is
not hexadecimal. -/
theorem Invocation.execute_batch_lines :
    (∃ entries : List (Nat × Except Error MethodSig),
      (mk false false {} (.batch "blobs.txt")).execute .standard
          (.ok "# methods\n20 01 01 0E\n\n00,01\n") = {
        output := "Line  Signature\n   2  instance void (string)\n   4  error: " ++
          "Out of bound read would have occurred - offset 2, needed 1, remaining 0\n"
        log := [.debug "Read 2 blob(s) from blobs.txt", .debug "Decoding 2 method signature(s)",
          .trace ("Method signature #1 failed: " ++
            "Out of bound read would have occurred - offset 2, needed 1, remaining 0"),
          .debug "Decoded method signatures - 1 failed", .info "1 decoded, 1 failed"]
        failure := [] } ∧
      Report.Batched.Agrees .standard {} "# methods\n20 01 01 0E\n\n00,01\n" entries) ∧
    ∃ number line error, HexLines.Live "00 00 01\n0g\n" number line ∧
      HexWords.read [line] = .error error ∧
      (mk true false {} (.batch "blobs.txt")).execute .standard (.ok "00 00 01\n0g\n") = {
        failure := ("line " ++ toString number) :: error.messages } := by
  constructor
  · obtain ⟨entries, _, _, _, -, -, -, -, -, hagrees⟩ :=
      (execute_batch .standard false false {} "blobs.txt" "# methods\n20 01 01 0E\n\n00,01\n").1
        (HexLines.exists_read_eq_ok_iff.1 ⟨_, rfl⟩)
    exact ⟨entries, by decide +kernel, hagrees⟩
  · obtain ⟨line, hlive, htrim⟩ :=
      HexLines.mem_live_iff.1 (show (2, "0g".toList) ∈ HexLines.live "00 00 01\n0g\n" by decide)
    have hline : ¬ ∃ blob, HexWords.read [line] = .ok blob := by
      rintro ⟨blob, hread⟩
      rw [← HexWords.read_trim, htrim] at hread
      cases hread
    obtain ⟨number, bad, error, hbad, hread, _, hexecute⟩ :=
      (execute_batch .standard true false {} "blobs.txt" _).2 ⟨2, line, hlive, hline⟩
    exact ⟨number, bad, error, hbad, hread, hexecute⟩

end SignatureBlob
