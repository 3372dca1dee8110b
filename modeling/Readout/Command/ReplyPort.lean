import Readout.Command.Frame
/-!
# Reply ports

Some commands read out memory of the board; their data come as a stream on a port of the host.
-/

namespace Readout.Command

/-- Commands that read the sequencer, and the port their data come on. -/
def sequencerReads : List String := ["RDP", "RDT", "RDO", "RDF", "RDR", "RDA", "RDS"]

/-- Commands that read registers of the front-end chips. -/
def chipReads : List String := ["RDC", "GCM"]

/-- The port on which the data of a command come, if it has such data. -/
def replyPort? (name : String) : Option Port :=
  if sequencerReads.contains name then some 0x1999
  else
    match name with
    | "RDB" => some configPort
    | "RDC" => some 0x2100
    | "GCM" => some 0x2200
    | _ => none

end Readout.Command
