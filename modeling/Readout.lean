import Readout.Bench.Basic
import Readout.Bench.Timer
import Readout.Board.Basic
import Readout.Board.Nor
import Readout.Calendar
import Readout.Capture.Output
import Readout.Capture.Table
import Readout.Capture.Watch
import Readout.Command.DataWords
import Readout.Command.Frame
import Readout.Command.ReplyPort
import Readout.Command.Response
import Readout.CommandLine.Grammar
import Readout.CommandLine.ProgressBar
import Readout.CommandLine.Request
import Readout.CommandLine.Run
import Readout.CommandLine.Shell
import Readout.CommandLine.Value
import Readout.Decimal.Binary64
import Readout.Decimal.Layout
import Readout.Decimal.Reader
import Readout.Decimal.Shortest
import Readout.Error
import Readout.Files
import Readout.Flash.BootPage
import Readout.Flash.Dump
import Readout.Flash.Firmware
import Readout.Flash.FirmwareMap
import Readout.Flash.Geometry
import Readout.Flash.Program
import Readout.Image.Card
import Readout.Image.Fits
import Readout.Image.Header
import Readout.Ini.Document
import Readout.Ini.Line
import Readout.Link.Basic
import Readout.Link.Exchange
import Readout.Link.Log
import Readout.Link.Network
import Readout.Main
import Readout.Path
import Readout.Proofs.Bench.Exchange
import Readout.Proofs.Board.Commit
import Readout.Proofs.Board.Traffic
import Readout.Proofs.Link.Runs
import Readout.Register.Block
import Readout.Register.Map
import Readout.Register.Settings
import Readout.Register.Tables
import Readout.Station
import Readout.Text.Address
import Readout.Text.Blank
import Readout.Text.CInteger
import Readout.Text.Printable
import Readout.Text.Quoted
import Readout.Text.Radix
import Readout.Text.Utf8
import Readout.Word
import Readout.Proofs.Flash.Steps
import Readout.Proofs.Flash.Pages
import Readout.Proofs.Bench.Timeout
import Readout.Proofs.Flash.Parts
import Readout.Proofs.Flash.Write
import Readout.Proofs.Command.Frames
import Readout.Proofs.Bench.InStep
import Readout.Proofs.Session
import Readout.Proofs.Flash.ImageWords
import Readout.Proofs.Flash.Verify
import Readout.Proofs.Flash.Image
import Readout.Proofs.Flash.Order
import Readout.Proofs.Ini.Lines
import Readout.Proofs.Register.Written
import Readout.Proofs.Register.RoundTrip
import Readout.Proofs.Flash.BootPages
import Readout.Proofs.Flash.Leftover
import Readout.Proofs.Bench.Passing
import Readout.Proofs.Flash.Verified
import Readout.Proofs.Register.Layout
import Readout.Proofs.Register.Replay
import Readout.Proofs.Register.Sends
import Readout.Proofs.Capture.Diary
import Readout.Proofs.Capture.Lifetime
import Readout.Proofs.Capture.Laws
import Readout.Proofs.Image.Pixels
import Readout.Proofs.Capture.Stored
import Readout.Proofs.Capture.Received
import Readout.Proofs.Image.Cards
import Readout.Proofs.Image.Added
import Readout.Proofs.Register.Blocks
import Readout.Proofs.Text.HexLines
import Readout.Proofs.Capture.Resent
import Readout.Proofs.Bench.Arrivals
import Readout.Proofs.Bench.Deadline
import Readout.Proofs.Register.Assigned
import Readout.Proofs.Register.Reached
import Readout.Proofs.Register.Loaded
import Readout.Proofs.Flash.HandedOver
import Readout.Proofs.Flash.Dumped
import Readout.Proofs.Flash.Verdicts
import Readout.Proofs.Flash.BootBlocks
import Readout.Proofs.Board.Heard
import Readout.Proofs.Image.Painted
import Readout.Proofs.Refusals
import Readout.Proofs.Board.History
import Readout.Proofs.Text.Literals
import Readout.Proofs.Image.Fields
import Readout.Proofs.Capture.Meanwhile
import Readout.Proofs.Capture.Watched
import Readout.Proofs.CommandLine.Readout
import Readout.Proofs.Text.Tokens
import Readout.Proofs.Flash.Extents
