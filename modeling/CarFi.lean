import CarFi.Analyzer.Database
import CarFi.Analyzer.ExperimentName
import CarFi.Analyzer.Import
import CarFi.Analyzer.Isolation
import CarFi.Analyzer.LinkParser
import CarFi.Analyzer.RecordOrder
import CarFi.Analyzer.Rekey
import CarFi.Analyzer.SweepCorrect
import CarFi.Analyzer.TcpBytes
import CarFi.Analyzer.Unlisted
import CarFi.Library.FileStore
import CarFi.Library.Machine
import CarFi.Roamingd.Agreement
import CarFi.Roamingd.Assertions
import CarFi.Roamingd.Carrier
import CarFi.Roamingd.Configured
import CarFi.Roamingd.History
import CarFi.Roamingd.Ledger
import CarFi.Roamingd.Parsed
import CarFi.Supplicant.Acceptance
import CarFi.Supplicant.ScanRecord
import CarFi.Supplicant.Selection
import CarFi.Uploader.Client
import CarFi.Uploader.ClientStates
import CarFi.Uploader.Completion
import CarFi.Uploader.MoveFailure
import CarFi.Uploader.Termination
import CarFi.Library.Fields
import CarFi.Uploader.Confinement
import CarFi.Analyzer.ScanParser
import CarFi.Analyzer.ScanBlocks
import CarFi.Scanner.SsidFilter
import CarFi.Library.Chunks
import CarFi.Analyzer.ScanPipeline
import CarFi.Library.Probe
import CarFi.Analyzer.Collision
import CarFi.Library.PyLines
import CarFi.Analyzer.Profile
import CarFi.Tester.Client
import CarFi.Tester.RoundTrip
import CarFi.Tester.Initiator
import CarFi.Roamingd.LeaseTimers
import CarFi.Roamingd.ClientRuns
import CarFi.Roamingd.Sockets
import CarFi.Roamingd.Backoff
import CarFi.Analyzer.BoxPlot
import CarFi.Analyzer.Cdf
import CarFi.Analyzer.GpsGrid
import CarFi.Analyzer.GpsMatch
import CarFi.Supplicant.ScanCount
import CarFi.Analyzer.Trips
import CarFi.Analyzer.IpChanges
import CarFi.Analyzer.FreqChange
import CarFi.Analyzer.Merge
import CarFi.Analyzer.DayOffsets
import CarFi.Dhcp.Options
import CarFi.Library.OnesComplement
import CarFi.Dhcp.Append
import CarFi.Dhcp.Routes
import CarFi.Library.LinkedList
import CarFi.Dhcp.LeaseOptions
import CarFi.Dhcp.Received
import CarFi.Dhcp.Packet
