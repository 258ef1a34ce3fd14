import Itmo.Endec.OFB
import Itmo.Police.Closed
import Itmo.Police.Ownership
import Itmo.ProgLab8.Refresh
import Itmo.ProgLab8.Credentials
import Itmo.ProgLab8.CommandLock
import Itmo.ProgLab8.RemoveGreater
import Itmo.ProgLab8.GetAnswer
import Itmo.Police.CaseCreation
import Itmo.Police.MinorRequests
import Itmo.Police.Assignments
import Itmo.ProgLab8.CacheOrder
import Itmo.ProgLab8.Removal
import Itmo.ProgLab8.RoundTrip
import Itmo.Lib.Literal
import Itmo.ProgLab8.Account
import Itmo.ProgLab8.LoginText
import Itmo.ProgLab8.Registration
import Itmo.Lib.Cascade
import Itmo.Police.Statements
import Itmo.ProgLab8.Snapshots
import Itmo.Police.Invariants
import Itmo.Police.CarefulStatements
import Itmo.Endec.Cardan
import Itmo.Endec.LFSR
import Itmo.Web4.Users
import Itmo.Web4.Tokens
import Itmo.Web4.SignUps
import Itmo.Police.PutAssignment
import Itmo.Lib.FirstBy
import Itmo.Police.CaseOverview
import Itmo.Police.Partners
import Itmo.KMeansTree.KMeans
import Itmo.KMeansTree.Descent
import Itmo.KMeansTree.ClusterTree
import Itmo.ProgLab6.Numbers
import Itmo.ProgLab6.Route
import Itmo.ProgLab6.Commands
import Itmo.ProgLab6.RouteIds
import Itmo.ProgLab6.Blocks
import Itmo.ProgLab6.Saving
import Itmo.ProgLab6.Parsing
import Itmo.ProgLab6.Loading
import Itmo.ProgLab6.SaveLoad
import Itmo.Endec.KeyStream
import Itmo.Endec.CardanLimits
import Itmo.Endec.KeySchedule
import Itmo.ProgLab6.TokenTrees
import Itmo.ProgLab7.DatabaseWorker
import Itmo.ProgLab6.Layout
import Itmo.ProgLab6.Whitespace
import Itmo.ProgLab8.Script
import Itmo.ProgLab8.ScriptRuns
import Itmo.ProgLab6.RouteOrder
import Itmo.Lib.RemoveLoop
import Itmo.ProgLab5.Commands
import Itmo.ProgLab6.CommandEffects
import Itmo.ProgLab6.ReadIds
import Itmo.ProgLab6.Validation
import Itmo.Lib.Utf
import Itmo.ProgLab6.GetAnswer
import Itmo.ProgLab6.ConsoleInput
import Itmo.ProgLab6.ConsoleInterface
import Itmo.ProgLab5.MainInterface
import Itmo.ProgLab5.Typing
import Itmo.Lib.Figure
import Itmo.Web4.Target
import Itmo.Lib.Separated
import Itmo.Soa.Filters
import Itmo.Vmath.Gauss
import Itmo.Vmath.Differential
import Itmo.Vmath.Approximation
import Itmo.LinearRegression.LeastSquares
import Itmo.KMeansTree.EmptyClusters
import Itmo.KMeansTree.Prediction
import Itmo.KMeansTree.GainRatio
import Itmo.Vmath.Multistep
import Itmo.Vmath.StepDoubling
import Itmo.Vmath.Chord
import Itmo.Vmath.SimpleIteration
import Itmo.SoftwareTesting.RadixSort
import Itmo.SoftwareTesting.Sin
import Itmo.SoftwareTesting.MainTables
import Itmo.SoftwareTesting.Ln
import Itmo.ProgLab6.ServerLoop
import Itmo.Web4.Shots
import Itmo.Soa.Notifications
import Itmo.Soa.Sorting
import Itmo.Vmath.Newton
import Itmo.Vmath.Curves
import Itmo.Vmath.BestFit
import Itmo.SoftwareTesting.FunctionCompute
import Itmo.Endec.Main
