import PTop.Framework.HeightTree
import PTop.Framework.ExactFloat
import PTop.Framework.Rounding
import PTop.Framework.WrapCounter
import PTop.Framework.BoundedInsertion
import PTop.Framework.Tables
import PTop.Framework.Machine
import PTop.Framework.Retention
import PTop.Framework.Handles
import PTop.Framework.Scanf
import PTop.Framework.Printf
import PTop.Framework.SqlText
import PTop.Framework.UnitText
import PTop.Framework.CheckedArray
import PTop.Framework.Traced
import PTop.Model.Common
import PTop.Model.AvlTree
import PTop.Model.PidStats
import PTop.Model.SystemStats
import PTop.Model.Database
import PTop.Model.Ptop
import PTop.Model.Reference
import PTop.Model.Display
import PTop.Model.Files
import PTop.Model.Eperf
import PTop.Model.AvlTrace
import PTop.Metatheory.CounterRuns
import PTop.Metatheory.AvlInsert
import PTop.Metatheory.AvlLookup
import PTop.Metatheory.AvlSize
import PTop.Metatheory.AvlMoments
import PTop.Metatheory.WriteStat
import PTop.Metatheory.TreeMap
import PTop.Metatheory.Sampling
import PTop.Metatheory.Cycle
import PTop.Metatheory.Runs
import PTop.Metatheory.Listing
import PTop.Metatheory.Descriptors
import PTop.Metatheory.Absence
import PTop.Metatheory.DisplayList
import PTop.Metatheory.CycleRows
import PTop.Metatheory.DiskTotals
import PTop.Metatheory.Intervals
import PTop.Metatheory.Conservation
import PTop.Metatheory.CacheMisses
import PTop.Metatheory.NetDeltas
import PTop.Metatheory.Refinement
import PTop.Metatheory.EnergyShare
import PTop.Metatheory.Purge
import PTop.Metatheory.SharedSeconds
import PTop.Metatheory.EnergyWindows
import PTop.Framework.Truncation
import PTop.Metatheory.DiskEnergy
import PTop.Metatheory.CpuPower
import PTop.Metatheory.FailedReads
import PTop.Metatheory.Percentages
import PTop.Metatheory.KillPrompt
import PTop.Metatheory.StatLine
import PTop.Metatheory.StatSample
import PTop.Metatheory.Smaps
import PTop.Metatheory.NetDev
import PTop.Metatheory.InsertText
import PTop.Metatheory.Elapsed
import PTop.Metatheory.CounterBounds
import PTop.Framework.KeyedLines
import PTop.Model.Texts
import PTop.Model.Program
import PTop.Metatheory.ProcessTexts
import PTop.Metatheory.CycleTexts
import PTop.Metatheory.RateColumns
import PTop.Metatheory.TreeGrowth
import PTop.Metatheory.Program
import PTop.Metatheory.Sessions
import PTop.Metatheory.TableBounds
import PTop.Metatheory.Displays
import PTop.Metatheory.Ledger
import PTop.Model.Statements
import PTop.Metatheory.Connections
import PTop.Metatheory.Histories
import PTop.Framework.Alike
import PTop.Model.Refusals
import PTop.Metatheory.Refusals
