import HttpClientGen.Plugin

/-!
# The command

The command reads a request from its standard input and writes the response to its standard output.
-/

/-- The reasons that the readers of this program give. -/
def HttpClientGen.Refusals.plain : HttpClientGen.Refusals where
  request _ := "malformed message"
  descriptors _ := "malformed descriptor"
  httpRule _ := "malformed annotation"

/-- Answers the request on standard input. -/
def main : IO Unit := do
  let input ← (← IO.getStdin).readBinToEnd
  let response := HttpClientGen.respond .plain input.data.toList
  let output ← IO.getStdout
  output.write ⟨response.encode.toArray⟩
  output.flush
