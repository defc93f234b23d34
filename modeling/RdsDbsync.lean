import RdsDbsync.Lib.Bytes
import RdsDbsync.Lib.Csv
import RdsDbsync.Lib.StepMachine
import RdsDbsync.Lib.SqlText
import RdsDbsync.Message
import RdsDbsync.Plugin
import RdsDbsync.Wire
import RdsDbsync.Generator
import RdsDbsync.Lib.RowSql
import RdsDbsync.Statement
import RdsDbsync.Identity
import RdsDbsync.Rows
import RdsDbsync.Lib.TxLog
import RdsDbsync.Receive
import RdsDbsync.Stream
import RdsDbsync.StreamStep
import RdsDbsync.Lib.OrderedLog
import RdsDbsync.Durability
import RdsDbsync.ExactlyOnce
import RdsDbsync.Apply
import RdsDbsync.Replay
import RdsDbsync.CopyThread
import RdsDbsync.FullSync
import RdsDbsync.HandOff
import RdsDbsync.StartMark
import RdsDbsync.EndMark
import RdsDbsync.MysqlField
import RdsDbsync.Lib.LinkedArray
import RdsDbsync.WorkQueue
import RdsDbsync.CopyWorker
import RdsDbsync.MysqlCopy
import RdsDbsync.Lib.EffectSession
import RdsDbsync.ApplyLoop
import RdsDbsync.ApplyGroups
import RdsDbsync.FeedbackOrder
import RdsDbsync.Lib.Reader
import RdsDbsync.Format
import RdsDbsync.OnlyStatements
import RdsDbsync.Lib.SqlLex
import RdsDbsync.Lib.SqlItems
import RdsDbsync.SqlNames
import RdsDbsync.Clauses
import RdsDbsync.Frames
import RdsDbsync.Indices
import RdsDbsync.RowCounts
import RdsDbsync.Lib.SqlConst
import RdsDbsync.Literals
import RdsDbsync.TableList
import RdsDbsync.Lib.CsvText
import RdsDbsync.CopyFraming
import RdsDbsync.OutputLoop
import RdsDbsync.Lib.Block
import RdsDbsync.QuoteBuffer
import RdsDbsync.Lib.Handle
import RdsDbsync.Connection
import RdsDbsync.Lib.SqlTarget
import RdsDbsync.TargetRelation
import RdsDbsync.Lib.LogReader
import RdsDbsync.ApplyOrder
import RdsDbsync.Pipeline
import RdsDbsync.Convergence
import RdsDbsync.Lib.SqlReader
import RdsDbsync.Lib.SqlRows
import RdsDbsync.Lib.SqlKeys
import RdsDbsync.Meaning
import RdsDbsync.RowEffects
import RdsDbsync.Mirror
import RdsDbsync.Crash
import RdsDbsync.Lib.CStrings
import RdsDbsync.Ini
import RdsDbsync.IniText
import RdsDbsync.IniLookup
import RdsDbsync.IniConfig
import RdsDbsync.Lib.Tokens
import RdsDbsync.ExactCopy
import RdsDbsync.Dbsync
